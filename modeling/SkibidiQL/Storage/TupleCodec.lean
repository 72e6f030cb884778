import SkibidiQL.Base.ExceptRules
import SkibidiQL.Base.LittleEndian
import SkibidiQL.Storage.Value

/-!
# Encoded tuples

A tuple is stored as its number of fields (2 bytes) and its fields, each a type tag and a payload. A
projected decoding reads the fields up to the last one it is asked for, and checks what it reads.

Decoding gives back what was encoded, or the projection of it (`decodeTuple_encode`,
`decodeTupleProjected_encode`).
-/

namespace SkibidiQL

namespace HeapFile

/-! ### Encoding -/

/-- The payload of a text or a blob: its length (4 bytes) and its bytes. -/
def encodeBytes (data : Bytes) : Bytes :=
  LittleEndian.encode 4 data.length ++ data

/-- One round of the loop of `encodeTuple`. -/
def encodeValue (value : Value) : Bytes :=
  UInt8.ofNat value.type.toNat :: match value with
  | .null => []
  | .integer n => LittleEndian.encode 8 n.toUInt64.toNat
  | .real bits => LittleEndian.encode 8 bits.toNat
  | .boolean b => [if b then 1 else 0]
  | .text data => encodeBytes data
  | .blob data => encodeBytes data

/-- `HeapFile::encodeTuple`. -/
def encodeTuple (tuple : Tuple) : Except Error Bytes :=
  if tuple.length > 65535 then throw (lit "Too many tuple fields")
  else pure (LittleEndian.encode 2 tuple.length ++ tuple.flatMap encodeValue)

/-! ### Decoding -/

/-- `readPod` of an unsigned number of this width, with the bytes behind it. -/
def readPod (width : Nat) (bytes : Bytes) : Except Error (Nat × Bytes) :=
  if width > bytes.length then throw (lit "Corrupt tuple payload")
  else pure (LittleEndian.decode (bytes.take width), bytes.drop width)

/-- The payload of a text or a blob. -/
def decodeBytes (error : String) (bytes : Bytes) : Except Error (Bytes × Bytes) := do
  let (length, bytes) ← readPod 4 bytes
  if length > bytes.length then throw (lit error)
  else pure (bytes.take length, bytes.drop length)

/-- One field, with the bytes behind it. A field that is not asked for is checked and skipped in the
same way. -/
def decodeField : Bytes → Except Error (Value × Bytes)
  | [] => throw (lit "Corrupt tuple type tag")
  | tag :: bytes =>
    match tag.toNat with
    | 0 => pure (.null, bytes)
    | 1 => do
      let (n, bytes) ← readPod 8 bytes
      pure (.integer (UInt64.ofNat n).toInt64, bytes)
    | 2 => do
      let (n, bytes) ← readPod 8 bytes
      pure (.real (UInt64.ofNat n), bytes)
    | 3 => do
      let (data, bytes) ← decodeBytes "Corrupt text tuple field" bytes
      pure (.text data, bytes)
    | 4 =>
      match bytes with
      | [] => throw (lit "Corrupt boolean tuple field")
      | b :: bytes => pure (.boolean (b != 0), bytes)
    | 5 => do
      let (data, bytes) ← decodeBytes "Corrupt blob tuple field" bytes
      pure (.blob data, bytes)
    | _ => throw (lit "Unknown tuple field type")

/-- The loop of `decodeTupleProjected`, with the columns still to come, the fields left and the index of
the next one. -/
def decodeFields : List Nat → Nat → Nat → Bytes → Except Error Tuple
  | _, 0, _, _ => pure []
  | columns, fields + 1, index, bytes => do
    let (value, bytes) ← decodeField bytes
    match columns with
    | [] => decodeFields [] fields (index + 1) bytes
    | column :: columns =>
      if column = index then
        -- The fields behind the last column are not checked.
        if columns.isEmpty then pure [value]
        else pure (value :: (← decodeFields columns fields (index + 1) bytes))
      else decodeFields (column :: columns) fields (index + 1) bytes

/-- `std::is_sorted` holds and `std::adjacent_find` finds nothing. -/
def sortedUnique : List Nat → Bool
  | [] => true
  | [_] => true
  | a :: b :: columns => a < b && sortedUnique (b :: columns)

/-- `HeapFile::decodeTupleProjected`. -/
def decodeTupleProjected (bytes : Bytes) (columns : List Nat) : Except Error Tuple :=
  match columns.getLast? with
  | none => pure []
  | some last => do
    let (count, bytes) ← readPod 2 bytes
    if last ≥ count || !sortedUnique columns then
      throw (lit "Invalid projected tuple columns")
    else decodeFields columns count 0 bytes

/-- `HeapFile::decodeTuple`. -/
def decodeTuple (bytes : Bytes) : Except Error Tuple := do
  let (count, _) ← readPod 2 bytes
  decodeTupleProjected bytes (List.range count)

/-! ### Round trip -/

/-- The fields of the tuple in these columns. -/
def project (columns : List Nat) (tuple : Tuple) : Tuple :=
  columns.filterMap fun column ↦ tuple[column]?

/-- The lengths of the texts and blobs of the value fit in four bytes. -/
def ValueFits : Value → Prop
  | .text data => data.length < 4294967296
  | .blob data => data.length < 4294967296
  | _ => True

/-- A fixed-width field is read back. -/
theorem readPod_encode {width n : Nat} (hn : n < 256 ^ width) (rest : Bytes) :
    readPod width (LittleEndian.encode width n ++ rest) = .ok (n, rest) := by
  have hlength := LittleEndian.length_encode width n
  rw [readPod, if_neg (by rw [List.length_append]; omega), List.take_left' hlength,
    List.drop_left' hlength, LittleEndian.decode_encode_of_lt hn]
  rfl

/-- Bytes with their length are read back. -/
theorem decodeBytes_encode (error : String) {data : Bytes} (h : data.length < 4294967296)
    (rest : Bytes) : decodeBytes error (encodeBytes data ++ rest) = .ok (data, rest) := by
  rw [decodeBytes, encodeBytes, List.append_assoc, readPod_encode (by omega)]
  show (if data.length > (data ++ rest).length then _ else _) = _
  rw [if_neg (by rw [List.length_append]; omega), List.take_left, List.drop_left]
  rfl

/-- A value is read back. -/
theorem decodeField_encode {value : Value} (h : ValueFits value) (rest : Bytes) :
    decodeField (encodeValue value ++ rest) = .ok (value, rest) := by
  cases value with
  | null => rfl
  | integer n =>
    have hn : n.toUInt64.toNat < 256 ^ 8 := n.toUInt64.toNat_lt
    show (do
      let (n, bytes) ← readPod 8 (LittleEndian.encode 8 n.toUInt64.toNat ++ rest)
      pure (Value.integer (UInt64.ofNat n).toInt64, bytes)) = _
    rw [readPod_encode hn]
    show Except.ok (Value.integer (UInt64.ofNat n.toUInt64.toNat).toInt64, rest) = _
    rw [UInt64.ofNat_toNat, Int64.toInt64_toUInt64]
  | real bits =>
    have hn : bits.toNat < 256 ^ 8 := bits.toNat_lt
    show (do
      let (n, bytes) ← readPod 8 (LittleEndian.encode 8 bits.toNat ++ rest)
      pure (Value.real (UInt64.ofNat n), bytes)) = _
    rw [readPod_encode hn]
    show Except.ok (Value.real (UInt64.ofNat bits.toNat), rest) = _
    rw [UInt64.ofNat_toNat]
  | boolean b => cases b <;> rfl
  | text data =>
    show (do
      let (data, bytes) ← decodeBytes "Corrupt text tuple field" (encodeBytes data ++ rest)
      pure (Value.text data, bytes)) = _
    rw [decodeBytes_encode _ h]
    rfl
  | blob data =>
    show (do
      let (data, bytes) ← decodeBytes "Corrupt blob tuple field" (encodeBytes data ++ rest)
      pure (Value.blob data, bytes)) = _
    rw [decodeBytes_encode _ h]
    rfl

/-- Columns are sorted and unique when they ascend. -/
theorem sortedUnique_iff {columns : List Nat} :
    sortedUnique columns ↔ columns.Pairwise (· < ·) := by
  rw [← List.isChain_iff_pairwise]
  induction columns with
  | nil => simp [sortedUnique]
  | cons a columns ih =>
    cases columns with
    | nil => simp [sortedUnique]
    | cons b columns =>
      rw [sortedUnique, Bool.and_eq_true, decide_eq_true_iff, ih, List.isChain_cons_cons]

/-- All of the fields, one after the other. -/
def decodeAll : Nat → Bytes → Except Error Tuple
  | 0, _ => pure []
  | fields + 1, bytes => do
    let (value, bytes) ← decodeField bytes
    pure (value :: (← decodeAll fields bytes))

/-- The values of a tuple are read back. -/
theorem decodeAll_encode {values : Tuple} (hfits : ∀ value ∈ values, ValueFits value) :
    decodeAll values.length (values.flatMap encodeValue) = .ok values := by
  induction values with
  | nil => rfl
  | cons value values ih =>
    rw [List.length_cons, List.flatMap_cons, decodeAll, decodeField_encode (hfits value List.mem_cons_self)]
    show (decodeAll values.length _ >>= fun values ↦ pure (value :: values)) = _
    rw [ih fun v hv ↦ hfits v (List.mem_cons_of_mem _ hv)]
    rfl

/-- A tuple with a first value. -/
theorem decodeAll_succ_eq_ok {fields : Nat} {bytes : Bytes} {values : Tuple}
    (h : decodeAll (fields + 1) bytes = .ok values) : ∃ value rest bytes',
      values = value :: rest ∧ decodeField bytes = .ok (value, bytes') ∧ decodeAll fields bytes' = .ok rest := by
  obtain ⟨⟨value, bytes'⟩, hfield, h⟩ := Except.bind_eq_ok.1 h
  obtain ⟨rest, hrest, h⟩ := Except.bind_eq_ok.1 h
  exact ⟨value, rest, bytes', (Except.ok.inj h).symm, hfield, hrest⟩

/-- As many values are read as were asked for. -/
theorem length_decodeAll {fields : Nat} {bytes : Bytes} {values : Tuple} (h : decodeAll fields bytes = .ok values) :
    values.length = fields := by
  induction fields generalizing bytes values with
  | zero => rw [← Except.ok.inj h, List.length_nil]
  | succ fields ih =>
    obtain ⟨value, rest, bytes', rfl, -, hrest⟩ := decodeAll_succ_eq_ok h
    rw [List.length_cons, ih hrest]

/-- Where all fields can be decoded, the projection gives those it is asked for. -/
theorem decodeFields_of_decodeAll {fields : Nat} {bytes : Bytes} {values : Tuple}
    (h : decodeAll fields bytes = .ok values) {columns : List Nat} (hsorted : columns.Pairwise (· < ·))
    (hne : columns ≠ []) {index : Nat} (hrange : ∀ column ∈ columns, index ≤ column ∧ column < index + fields) :
    decodeFields columns fields index bytes = .ok (columns.filterMap fun column ↦ values[column - index]?) := by
  induction fields generalizing values columns index bytes with
  | zero =>
    obtain ⟨column, hcolumn⟩ := List.exists_mem_of_ne_nil columns hne
    have := hrange column hcolumn
    omega
  | succ fields ih =>
    obtain ⟨value, rest, bytes', rfl, hfield, hrest⟩ := decodeAll_succ_eq_ok h
    -- Behind the first field all positions are one less.
    have hshift : ∀ {cs : List Nat}, (∀ c ∈ cs, index + 1 ≤ c) →
        (cs.filterMap fun c ↦ rest[c - (index + 1)]?) =
          cs.filterMap fun c ↦ (value :: rest)[c - index]? := by
      intro cs hcs
      refine List.filterMap_congr fun c hc ↦ ?_
      have hle := hcs c hc
      rw [show c - index = (c - (index + 1)) + 1 by omega, List.getElem?_cons_succ]
    rw [decodeFields, hfield]
    cases columns with
    | nil => exact absurd rfl hne
    | cons column columns =>
      rw [List.pairwise_cons] at hsorted
      have hcolumn := hrange column List.mem_cons_self
      show (if column = index then
          if columns.isEmpty then pure [value]
          else do pure (value :: (← decodeFields columns fields (index + 1) bytes'))
        else decodeFields (column :: columns) fields (index + 1) bytes') = _
      -- A field that is asked for is kept, and decoding ends early with the last one asked for.
      by_cases hindex : column = index
      · have hlater : ∀ c ∈ columns, index + 1 ≤ c := fun c hc ↦ by
          have := hsorted.1 c hc
          omega
        rw [if_pos hindex, List.filterMap_cons, hindex, Nat.sub_self, List.getElem?_cons_zero]
        cases columns with
        | nil => rfl
        | cons column' columns =>
          rw [ih hrest hsorted.2 (by simp) fun c hc ↦ ⟨hlater c hc, by
            have := (hrange c (List.mem_cons_of_mem _ hc)).2
            omega⟩, hshift hlater]
          rfl
      · have hlater : ∀ c ∈ column :: columns, index + 1 ≤ c := fun c hc ↦ by
          rcases List.mem_cons.1 hc with rfl | hc
          · omega
          · have := hsorted.1 c hc
            omega
        rw [if_neg hindex, ih hrest (List.pairwise_cons.2 hsorted) (by simp) fun c hc ↦
          ⟨hlater c hc, by
            have := (hrange c hc).2
            omega⟩, hshift hlater]

/-- Decoding all of the fields is decoding all of their columns. -/
theorem decodeFields_range (fields : Nat) (index : Nat) (bytes : Bytes) :
    decodeFields (List.range' index fields) fields index bytes = decodeAll fields bytes := by
  induction fields generalizing index bytes with
  | zero => rfl
  | succ fields ih =>
    rw [decodeFields, decodeAll, List.range'_succ]
    congr 1
    funext ⟨value, bytes'⟩
    dsimp only
    rw [if_pos rfl]
    cases fields with
    | zero => rfl
    | succ fields =>
      rw [if_neg (by simp), ih]

section Tuples

variable {tuple : Tuple} {bytes : Bytes}

/-- A tuple that is encoded is short, and is its length and its values. -/
theorem encodeTuple_eq_ok (h : encodeTuple tuple = .ok bytes) :
    tuple.length ≤ 65535 ∧
      bytes = LittleEndian.encode 2 tuple.length ++ tuple.flatMap encodeValue := by
  unfold encodeTuple at h
  split at h
  · cases h
  · rename_i hle
    cases h
    exact ⟨Nat.le_of_not_lt hle, rfl⟩

/-- The fields of a tuple whose encoding is short fit. -/
theorem valueFits_of_encodeTuple (h : encodeTuple tuple = .ok bytes)
    (hlength : bytes.length < 4294967296) : ∀ value ∈ tuple, ValueFits value := by
  obtain ⟨-, rfl⟩ := encodeTuple_eq_ok h
  intro value hvalue
  have hle : (encodeValue value).length ≤ (tuple.flatMap encodeValue).length := by
    obtain ⟨front, back, rfl⟩ := List.append_of_mem hvalue
    simp only [List.flatMap_append, List.flatMap_cons, List.length_append]
    omega
  rw [List.length_append] at hlength
  cases value with
  | text data =>
    simp only [encodeValue, encodeBytes, List.length_cons, List.length_append] at hle
    simp only [ValueFits]
    omega
  | blob data =>
    simp only [encodeValue, encodeBytes, List.length_cons, List.length_append] at hle
    simp only [ValueFits]
    omega
  | null => trivial
  | integer n => trivial
  | real bits => trivial
  | boolean b => trivial

/-- A projection to columns in range, of a tuple that can be decoded. -/
theorem decodeTupleProjected_of_decodeAll {count : Nat} {body : Bytes} (hread : readPod 2 bytes = .ok (count, body))
    (hall : decodeAll count body = .ok tuple) {columns : List Nat} (hsorted : sortedUnique columns)
    (hrange : ∀ column ∈ columns, column < count) :
    decodeTupleProjected bytes columns = .ok (project columns tuple) := by
  unfold decodeTupleProjected
  cases hlast : columns.getLast? with
  | none =>
    rw [List.getLast?_eq_none_iff] at hlast
    rw [hlast]
    rfl
  | some last =>
    have hmem := List.mem_of_getLast? hlast
    have hne : columns ≠ [] := List.ne_nil_of_mem hmem
    simp only
    rw [hread]
    show (if last ≥ count || !sortedUnique columns then _ else _) = _
    rw [if_neg (by simpa [hsorted] using hrange last hmem),
      decodeFields_of_decodeAll hall (sortedUnique_iff.1 hsorted) hne (fun column hcolumn ↦
        ⟨Nat.zero_le _, by rw [Nat.zero_add]; exact hrange column hcolumn⟩)]
    rfl

/-- Decoding the projection of an encoded tuple. -/
theorem decodeTupleProjected_encode_of_fits (h : encodeTuple tuple = .ok bytes)
    (hfits : ∀ value ∈ tuple, ValueFits value) {columns : List Nat} (hsorted : sortedUnique columns)
    (hrange : ∀ column ∈ columns, column < tuple.length) :
    decodeTupleProjected bytes columns = .ok (project columns tuple) := by
  obtain ⟨hcount, rfl⟩ := encodeTuple_eq_ok h
  exact decodeTupleProjected_of_decodeAll (readPod_encode (by omega) _) (decodeAll_encode hfits) hsorted hrange

/-- Decoding the projection of a tuple whose encoding is short. -/
theorem decodeTupleProjected_encode (h : encodeTuple tuple = .ok bytes)
    (hlength : bytes.length < 4294967296) {columns : List Nat} (hsorted : sortedUnique columns)
    (hrange : ∀ column ∈ columns, column < tuple.length) :
    decodeTupleProjected bytes columns = .ok (project columns tuple) :=
  decodeTupleProjected_encode_of_fits h (valueFits_of_encodeTuple h hlength) hsorted hrange

/-- A column that the tuple does not have is refused. -/
theorem decodeTupleProjected_error (h : encodeTuple tuple = .ok bytes) {columns : List Nat}
    {last : Nat} (hlast : columns.getLast? = some last) (hrange : tuple.length ≤ last) :
    decodeTupleProjected bytes columns = .error (lit "Invalid projected tuple columns") := by
  obtain ⟨hcount, rfl⟩ := encodeTuple_eq_ok h
  simp only [decodeTupleProjected, hlast]
  rw [readPod_encode (by omega)]
  show (if last ≥ tuple.length || !sortedUnique columns then _ else _) = _
  rw [if_pos (by simp [hrange])]
  rfl

theorem sortedUnique_range (n : Nat) : sortedUnique (List.range n) :=
  sortedUnique_iff.2 List.pairwise_lt_range

/-- All columns of a tuple are the tuple. -/
theorem project_range (tuple : Tuple) : project (List.range tuple.length) tuple = tuple := by
  apply List.ext_getElem?
  intro i
  have hall : (List.range tuple.length).filterMap (fun column ↦ tuple[column]?) =
      (List.range tuple.length).map fun column ↦ tuple.getD column .null := by
    rw [← List.filterMap_eq_map]
    refine List.filterMap_congr fun column hcolumn ↦ ?_
    have hlt := List.mem_range.1 hcolumn
    simp [List.getElem?_eq_getElem hlt]
  rw [project, hall, List.getElem?_map]
  by_cases hi : i < tuple.length
  · simp [List.getElem?_range hi, List.getElem?_eq_getElem hi]
  · rw [List.getElem?_eq_none (Nat.le_of_not_lt hi), List.getElem?_eq_none (by simpa using hi)]
    rfl

/-- Decoding an encoded tuple. -/
theorem decodeTuple_encode_of_fits (h : encodeTuple tuple = .ok bytes)
    (hfits : ∀ value ∈ tuple, ValueFits value) : decodeTuple bytes = .ok tuple := by
  have hproject := decodeTupleProjected_encode_of_fits h hfits (sortedUnique_range tuple.length)
    fun _ ↦ List.mem_range.1
  rw [project_range] at hproject
  obtain ⟨hcount, hbytes⟩ := encodeTuple_eq_ok h
  have hread : readPod 2 bytes = .ok (tuple.length, tuple.flatMap encodeValue) := by
    rw [hbytes, readPod_encode (by omega)]
  rw [decodeTuple, hread]
  exact hproject

/-- **A tuple is read back.** -/
theorem decodeTuple_encode (h : encodeTuple tuple = .ok bytes) (hlength : bytes.length < 4294967296) :
    decodeTuple bytes = .ok tuple :=
  decodeTuple_encode_of_fits h (valueFits_of_encodeTuple h hlength)

/-- A tuple is accepted when all of its fields can be decoded. -/
theorem decodeTuple_eq_ok (h : decodeTuple bytes = .ok tuple) :
    ∃ body, readPod 2 bytes = .ok (tuple.length, body) ∧ decodeAll tuple.length body = .ok tuple := by
  obtain ⟨⟨count, body⟩, hread, h⟩ := Except.bind_eq_ok.1 h
  have hall : decodeAll count body = .ok tuple := by
    cases count with
    | zero => exact h
    | succ count =>
      have hlast : (List.range (count + 1)).getLast? = some count := by
        rw [List.range_succ, List.getLast?_concat]
      simp only [decodeTupleProjected, hlast, hread] at h
      rw [← decodeFields_range (count + 1) 0, ← List.range_eq_range']
      have hcheck : ¬(decide (count ≥ count + 1) || !sortedUnique (List.range (count + 1))) = true := by
        simp [sortedUnique_range]
      simpa only [Except.ok_bind, if_neg hcheck] using h
  have hlength := length_decodeAll hall
  exact ⟨body, hlength ▸ hread, hlength ▸ hall⟩

end Tuples

end HeapFile

end SkibidiQL
