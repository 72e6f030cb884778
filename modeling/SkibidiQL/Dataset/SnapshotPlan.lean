import SkibidiQL.Base.ExceptRules
import SkibidiQL.Base.Stride
import SkibidiQL.Base.Utf8
import SkibidiQL.Catalog.Metadata

/-!
# Plans of a dataset snapshot

The rows of a split in the order of a hash of their row ids, dealt out to the ranks of a training run. The
engine plans them with unsigned 64-bit arithmetic, and the Python reader with unbounded integers that it
masks to 64 bits; both are modelled here.
-/

namespace SkibidiQL

open Bytes

/-! ### The engine -/

/-- `fnv1a64AppendByte`. -/
def fnv1a64AppendByte (hash : UInt64) (byte : UInt8) : UInt64 :=
  (hash ^^^ byte.toUInt64) * 1099511628211

/-- `fnv1a64`. -/
def fnv1a64 (text : Bytes) : UInt64 :=
  text.foldl fnv1a64AppendByte 1469598103934665603

/-- One line `value ^= value >> 33` of `avalanche64`. -/
def foldHigh (value : UInt64) : UInt64 :=
  value ^^^ (value >>> 33)

/-- `avalanche64`. -/
def avalanche64 (value : UInt64) : UInt64 :=
  foldHigh (foldHigh (foldHigh value * 0xff51afd7ed558ccd) * 0xc4ceb9fe1a85ec53)

/-- `snapshotHash`. -/
def snapshotHash (seed epoch : UInt64) (key : Bytes) : UInt64 :=
  avalanche64 (seed ^^^ (epoch * 0x9e3779b97f4a7c15) ^^^ fnv1a64 key)

/-- The comparison of `plannedSnapshotRows`. -/
def snapshotRowBefore (seed epoch : UInt64) (left right : SnapshotRowMeta) : Bool :=
  let leftHash := snapshotHash seed epoch left.rowid
  let rightHash := snapshotHash seed epoch right.rowid
  if leftHash ≠ rightHash then leftHash < rightHash else compare left.rowid right.rowid == .lt

/-- The rows of the split in their order: `std::stable_sort` of the selected rows. -/
def snapshotOrder (snapshot : DatasetSnapshotMeta) (epoch : UInt64) (split : Bytes) :
    List SnapshotRowMeta :=
  (snapshot.rows.filter (·.split == split)).mergeSort
    fun left right ↦ !snapshotRowBefore snapshot.seed epoch right left

/-- `plannedSnapshotRows`. -/
def plannedSnapshotRows (snapshot : DatasetSnapshotMeta) (epoch rank worldSize : UInt64)
    (split : Bytes) : Except Error (List SnapshotRowMeta) :=
  if worldSize = 0 then throw (lit "world-size must be greater than zero")
  else if worldSize ≤ rank then throw (lit "rank must be smaller than world-size")
  else return (snapshotOrder snapshot epoch split).stride worldSize.toNat rank.toNat

/-! ### The Python reader -/

/-- The bits that `& 0xFFFFFFFFFFFFFFFF` keeps. -/
def mask64 (value : Nat) : Nat :=
  value &&& 0xFFFFFFFFFFFFFFFF

/-- `_fnv1a64`. -/
def pyFnv1a64 (text : List Char) : Nat :=
  (encodeUtf8 text).foldl (fun value byte ↦ mask64 ((value ^^^ byte.toNat) * 1099511628211))
    1469598103934665603

/-- `_mix64`. -/
def pyMix64 (value : Nat) : Nat :=
  let value := value ^^^ (value >>> 33)
  let value := mask64 (value * 0xFF51AFD7ED558CCD)
  let value := value ^^^ (value >>> 33)
  let value := mask64 (value * 0xC4CEB9FE1A85EC53)
  let value := value ^^^ (value >>> 33)
  mask64 value

/-- `_snapshot_hash`. -/
def pySnapshotHash (seed epoch : Nat) (key : List Char) : Nat :=
  pyMix64 (seed ^^^ mask64 (epoch * 0x9E3779B97F4A7C15) ^^^ pyFnv1a64 key)

/-- An entry of `catalog["snapshots"][dataset]["rows"]`. -/
structure PySnapshotRow where
  rowid : List Char
  split : List Char

/-- `catalog["snapshots"][dataset]`, as far as the plan reads it. -/
structure PySnapshot where
  seed : Nat
  rows : List PySnapshotRow

/-- The order of the sort keys: pairs of a hash and a row id. -/
def pyKeyLE (left right : Nat × List Char) : Bool :=
  left.1 < right.1 || (left.1 == right.1 && compare left.2 right.2 != .gt)

/-- `self.rows` of `TensorQLDataset.__init__`, with the checks of its arguments. -/
def pyPlannedRows (snapshot : PySnapshot) (batchSize : Int) (split : List Char) (epoch : Nat)
    (rank worldSize : Int) : Except Error (List PySnapshotRow) :=
  if batchSize ≤ 0 then throw (lit "batch_size must be positive")
  else if worldSize ≤ 0 then throw (lit "world_size must be positive")
  else if rank < 0 ∨ worldSize ≤ rank then throw (lit "rank must be in [0, world_size)")
  else
    let key (row : PySnapshotRow) := (pySnapshotHash snapshot.seed epoch row.rowid, row.rowid)
    let rows := (snapshot.rows.filter (·.split == split)).mergeSort
      fun left right ↦ pyKeyLE (key left) (key right)
    return (rows.zipIdx.filter fun entry ↦ (entry.2 : Int) % worldSize == rank).map (·.1)

/-! ### Masked integers -/

theorem mask64_eq (value : Nat) : mask64 value = value % 2 ^ 64 :=
  Nat.and_two_pow_sub_one_eq_mod value 64

theorem mask64_mul_toNat (x y : UInt64) : mask64 (x.toNat * y.toNat) = (x * y).toNat := by
  rw [mask64_eq, UInt64.toNat_mul]

theorem toNat_foldHigh (x : UInt64) : (foldHigh x).toNat = x.toNat ^^^ (x.toNat >>> 33) := by
  rw [foldHigh, UInt64.toNat_xor, UInt64.toNat_shiftRight]
  rfl

/-- Python mixes as the engine does. -/
theorem pyMix64_toNat (x : UInt64) : pyMix64 x.toNat = (avalanche64 x).toNat := by
  have hlast (y : UInt64) : mask64 y.toNat = y.toNat := by
    rw [mask64_eq, Nat.mod_eq_of_lt y.toNat_lt]
  rw [pyMix64, avalanche64, ← toNat_foldHigh, show (0xFF51AFD7ED558CCD : Nat) = (0xff51afd7ed558ccd : UInt64).toNat from rfl,
    mask64_mul_toNat, ← toNat_foldHigh,
    show (0xC4CEB9FE1A85EC53 : Nat) = (0xc4ceb9fe1a85ec53 : UInt64).toNat from rfl,
    mask64_mul_toNat, ← toNat_foldHigh, hlast]

/-- Python hashes texts as the engine does. -/
theorem pyFnv1a64_eq (text : List Char) : pyFnv1a64 text = (fnv1a64 (encodeUtf8 text)).toNat := by
  rw [pyFnv1a64, fnv1a64,
    show (1469598103934665603 : Nat) = (1469598103934665603 : UInt64).toNat from rfl]
  generalize (1469598103934665603 : UInt64) = hash
  induction encodeUtf8 text generalizing hash with
  | nil => rfl
  | cons byte bytes ih =>
    have hstep : mask64 ((hash.toNat ^^^ byte.toNat) * 1099511628211) =
        (fnv1a64AppendByte hash byte).toNat := by
      rw [fnv1a64AppendByte, ← mask64_mul_toNat, UInt64.toNat_xor, UInt8.toNat_toUInt64]
      rfl
    rw [List.foldl_cons, List.foldl_cons, hstep, ih]

/-- Python hashes the keys of rows as the engine does. -/
theorem pySnapshotHash_eq (seed epoch : UInt64) (key : List Char) :
    pySnapshotHash seed.toNat epoch.toNat key = (snapshotHash seed epoch (encodeUtf8 key)).toNat := by
  rw [pySnapshotHash, snapshotHash, ← pyMix64_toNat, UInt64.toNat_xor, UInt64.toNat_xor,
    pyFnv1a64_eq, show (0x9E3779B97F4A7C15 : Nat) = (0x9e3779b97f4a7c15 : UInt64).toNat from rfl,
    mask64_mul_toNat]

/-! ### One catalog, two readers -/

/-- A row of the snapshot as the engine reads it. -/
def PySnapshotRow.toMeta (row : PySnapshotRow) : SnapshotRowMeta :=
  ⟨encodeUtf8 row.rowid, encodeUtf8 row.split⟩

/-- The two readers read the same snapshot. -/
def SameSnapshot (snapshot : DatasetSnapshotMeta) (view : PySnapshot) : Prop :=
  snapshot.seed.toNat = view.seed ∧ snapshot.rows = view.rows.map PySnapshotRow.toMeta

/-- The order of the pairs of hash and key. -/
theorem pyKeyLE_eq_not_before (a b : UInt64) (o : Ordering) :
    (decide (a.toNat < b.toNat) || (a.toNat == b.toNat && o != .gt)) =
      !(if b ≠ a then decide (b < a) else o.swap == .lt) := by
  by_cases hab : a = b
  · subst hab
    rw [if_neg (not_not.2 rfl)]
    cases o <;> simp
  · have hne : a.toNat ≠ b.toNat := fun h ↦ hab (UInt64.toNat_inj.1 h)
    rw [if_pos (Ne.symm hab), beq_eq_false_iff_ne.2 hne, Bool.false_and, Bool.or_false,
      ← decide_not, decide_eq_decide, UInt64.lt_iff_toNat_lt]
    omega

/-- Python orders the rows as the engine does. -/
theorem pyKeyLE_eq (seed epoch : UInt64) (left right : PySnapshotRow) :
    pyKeyLE (pySnapshotHash seed.toNat epoch.toNat left.rowid, left.rowid)
        (pySnapshotHash seed.toNat epoch.toNat right.rowid, right.rowid) =
      !snapshotRowBefore seed epoch right.toMeta left.toMeta := by
  rw [pyKeyLE, snapshotRowBefore, pySnapshotHash_eq, pySnapshotHash_eq]
  simp only [PySnapshotRow.toMeta, compare_encodeUtf8]
  rw [(Std.OrientedOrd.eq_swap : compare right.rowid left.rowid = _)]
  exact pyKeyLE_eq_not_before _ _ _

/-- The order of the rows is the same in the engine and in the reader. -/
theorem snapshotOrder_eq {snapshot : DatasetSnapshotMeta} {view : PySnapshot}
    (h : SameSnapshot snapshot view) (epoch : UInt64) (split : List Char) :
    snapshotOrder snapshot epoch (encodeUtf8 split) =
      ((view.rows.filter (·.split == split)).mergeSort fun left right ↦
        pyKeyLE (pySnapshotHash view.seed epoch.toNat left.rowid, left.rowid)
          (pySnapshotHash view.seed epoch.toNat right.rowid, right.rowid)).map
        PySnapshotRow.toMeta := by
  have hsplit (row : PySnapshotRow) : (row.toMeta.split == encodeUtf8 split) = (row.split == split) :=
    Bool.eq_iff_iff.2 (by
      rw [beq_iff_eq, beq_iff_eq]
      exact encodeUtf8_injective.eq_iff)
  rw [snapshotOrder, h.2, List.filter_map, ← h.1, List.map_mergeSort
    (s := fun left right ↦ !snapshotRowBefore snapshot.seed epoch right left)
    fun left _ right _ ↦ pyKeyLE_eq snapshot.seed epoch left right]
  refine congrArg (fun rows : List PySnapshotRow ↦ List.mergeSort (rows.map PySnapshotRow.toMeta) _) ?_
  exact List.filter_congr fun row _ ↦ hsplit row

/-- With arguments that pass the checks, the reader takes the rows of the engine's plan. -/
theorem pyPlannedRows_eq {snapshot : DatasetSnapshotMeta} {view : PySnapshot}
    (h : SameSnapshot snapshot view) {batchSize : Int} (hbatch : 0 < batchSize) (split : List Char)
    (epoch rank worldSize : UInt64) (hrank : rank < worldSize) :
    ∃ rows, pyPlannedRows view batchSize split epoch.toNat rank.toNat worldSize.toNat = .ok rows ∧
      rows.map PySnapshotRow.toMeta =
        (snapshotOrder snapshot epoch (encodeUtf8 split)).stride worldSize.toNat rank.toNat := by
  have hlt : rank.toNat < worldSize.toNat := UInt64.lt_iff_toNat_lt.1 hrank
  unfold pyPlannedRows
  rw [if_neg (by omega), if_neg (by omega), if_neg (by omega)]
  refine ⟨_, rfl, ?_⟩
  rw [snapshotOrder_eq h, List.stride_map, List.stride]
  refine congrArg (List.map _) (congrArg (List.map _) (List.filter_congr fun entry _ ↦ ?_))
  rw [← Int.natCast_mod, Bool.eq_iff_iff, beq_iff_eq, beq_iff_eq]
  exact Int.natCast_inj

/-! ### Shards -/

/-- The plans of the ranks of one world: they have no row in common, they are the rows of the split
together, and their lengths differ by at most one. -/
structure Shards (snapshot : DatasetSnapshotMeta) (split : Bytes) (worldSize : UInt64)
    (plan : UInt64 → List SnapshotRowMeta) : Prop where
  disjoint : ∀ rank < worldSize, ∀ rank' < worldSize, rank ≠ rank' →
    ∀ row ∈ plan rank, row ∉ plan rank'
  complete : ((List.range worldSize.toNat).flatMap fun rank ↦ plan (.ofNat rank)).Perm
    (snapshot.rows.filter (·.split == split))
  balanced : ∀ rank < worldSize, ∀ rank' < worldSize,
    (plan rank).length ≤ (plan rank').length + 1

theorem snapshotOrder_perm (snapshot : DatasetSnapshotMeta) (epoch : UInt64) (split : Bytes) :
    (snapshotOrder snapshot epoch split).Perm (snapshot.rows.filter (·.split == split)) :=
  List.mergeSort_perm _ _

/-- The shards of the ranks are the strides of the order. -/
theorem shards_stride {snapshot : DatasetSnapshotMeta}
    (hdistinct : (snapshot.rows.map (·.rowid)).Nodup) (epoch : UInt64) (split : Bytes)
    {worldSize : UInt64} (hworld : 1 ≤ worldSize) :
    Shards snapshot split worldSize fun rank ↦
      (snapshotOrder snapshot epoch split).stride worldSize.toNat rank.toNat where
  disjoint rank hrank rank' hrank' hne row hrow := by
    refine List.notMem_stride ?_ (fun h ↦ hne (UInt64.toNat_inj.1 h)) hrow
    exact (snapshotOrder_perm snapshot epoch split).nodup_iff.2 (hdistinct.of_map.filter _)
  complete := by
    have hpos : 0 < worldSize.toNat := UInt64.le_iff_toNat_le.1 hworld
    have hranks : ((List.range worldSize.toNat).flatMap fun rank ↦
        (snapshotOrder snapshot epoch split).stride worldSize.toNat (UInt64.ofNat rank).toNat) =
        (List.range worldSize.toNat).flatMap fun rank ↦
          (snapshotOrder snapshot epoch split).stride worldSize.toNat rank :=
      List.flatMap_congr fun rank hrank ↦ by
        rw [UInt64.toNat_ofNat_of_lt' ((List.mem_range.1 hrank).trans worldSize.toNat_lt)]
    rw [hranks]
    exact (List.flatMap_stride_perm hpos).trans (snapshotOrder_perm snapshot epoch split)
  balanced rank hrank rank' hrank' := by
    rw [List.length_stride (UInt64.lt_iff_toNat_lt.1 hrank),
      List.length_stride (UInt64.lt_iff_toNat_lt.1 hrank')]
    split <;> split <;> omega

/-- For every snapshot with distinct row ids, split, seed, epoch and world size, the plans of the engine
shard the split, and the Python reader plans the same row ids for every rank. -/
theorem plannedSnapshotRows_shards (snapshot : DatasetSnapshotMeta)
    (hdistinct : (snapshot.rows.map (·.rowid)).Nodup) (epoch worldSize : UInt64)
    (hworld : 1 ≤ worldSize) (split : Bytes) :
    ∃ plan : UInt64 → List SnapshotRowMeta,
      (∀ rank < worldSize, plannedSnapshotRows snapshot epoch rank worldSize split = .ok (plan rank)) ∧
      Shards snapshot split worldSize plan ∧
      ∀ view splitText, SameSnapshot snapshot view → split = encodeUtf8 splitText →
        ∀ batchSize : Int, 0 < batchSize → ∀ rank < worldSize, ∃ rows,
          pyPlannedRows view batchSize splitText epoch.toNat rank.toNat worldSize.toNat = .ok rows ∧
            rows.map (fun row ↦ encodeUtf8 row.rowid) = (plan rank).map (·.rowid) := by
  refine ⟨_, fun rank hrank ↦ ?_, shards_stride hdistinct epoch split hworld, ?_⟩
  · have hrank' := UInt64.lt_iff_toNat_lt.1 hrank
    unfold plannedSnapshotRows
    rw [if_neg fun h ↦ Nat.not_lt_zero _ (h ▸ hrank'), if_neg fun h ↦ ?_]
    · rfl
    · exact absurd (UInt64.le_iff_toNat_le.1 h) (Nat.not_le_of_lt hrank')
  · rintro view splitText hsame rfl batchSize hbatch rank hrank
    obtain ⟨rows, hrows, hmap⟩ := pyPlannedRows_eq hsame hbatch splitText epoch rank worldSize hrank
    refine ⟨rows, hrows, ?_⟩
    rw [← hmap, List.map_map]
    rfl

/-- Three rows of one split on two ranks. -/
theorem plannedSnapshotRows_shards_three : ∃ plan,
    Shards { seed := 7, rows := [⟨lit "0:0", lit "train"⟩, ⟨lit "0:1", lit "train"⟩,
      ⟨lit "0:2", lit "train"⟩] } (lit "train") 2 plan := by
  obtain ⟨plan, -, hshards, -⟩ := plannedSnapshotRows_shards { seed := 7, rows := [
    ⟨lit "0:0", lit "train"⟩, ⟨lit "0:1", lit "train"⟩, ⟨lit "0:2", lit "train"⟩] }
    (by decide +kernel) 3 2 (by decide) (lit "train")
  exact ⟨plan, hshards⟩

end SkibidiQL
