import SkibidiQL.Storage.TupleDecoders

/-!
# The decoders of tuples agree

Each decoder reads a field as `HeapFile.decodeField` takes it from the bytes that are left
(`readValue_follows`, `readRawField_follows`), so its loop does what `HeapFile.decodeFields` does, and no decoder
reads behind the end.
-/

namespace SkibidiQL

namespace TupleBytes

open OffsetReader

variable {data : Bytes} {columns : List Nat}

/-! ### Fields -/

/-- A fixed-width field is read as the offset reader reads it. -/
theorem readPod_follows (width : Nat) : Follows data (· = ·) (readPod data width) (HeapFile.readPod width) := by
  refine ((Follows.checkedSlice (lit "Corrupt tuple payload") width).bind
    (fun bytes rest ↦ .ok (LittleEndian.decode bytes, rest)) ?_).congr fun rest ↦ ?_
  · rintro a _ rfl
    exact .pure rfl
  · unfold HeapFile.readPod takeSlice
    split <;> rfl

/-- The bytes of a text, kept or skipped, are read as the offset reader reads them. -/
theorem readBytes_follows (error : String) (materialize : Bool) :
    Follows data (fun a b ↦ materialize = true → a = b) (readBytes data error materialize)
      (HeapFile.decodeBytes error) := by
  refine (readPod_follows 4).bind (takeSlice (lit error)) ?_
  rintro length _ rfl
  cases materialize with
  | false =>
    refine ((Follows.checkedSkip (lit error) length).bind (fun bytes rest ↦ .ok (bytes, rest)) ?_).congr
      fun rest ↦ ?_
    · exact fun _ _ _ ↦ .pure nofun
    · unfold takeSlice
      split <;> rfl
  | true => exact (Follows.checkedSlice (lit error) length).mono fun _ _ h _ ↦ h

theorem readTag_follows : Follows data (· = ·) (readTag data) (takeNext (lit "Corrupt tuple type tag")) :=
  .checkedNext _

/-- The byte of a boolean, which is read or skipped. -/
theorem readBoolean_follows (materialize : Bool) : Follows data (fun a b ↦ materialize = true → a = b)
    (if materialize then do
      let b ← check (fun offset ↦ offset ≥ data.length) (lit "Corrupt boolean tuple field") >>= fun _ ↦ next data
      pure (Value.boolean (b != 0))
    else do
      check (fun offset ↦ offset ≥ data.length) (lit "Corrupt boolean tuple field") >>= fun _ ↦ skip 1
      pure (Value.boolean false))
    fun
      | [] => .error (lit "Corrupt boolean tuple field")
      | b :: rest => .ok (Value.boolean (b != 0), rest) := by
  cases materialize with
  | true =>
    refine ((Follows.checkedNext (lit "Corrupt boolean tuple field")).bind
      (fun b rest ↦ .ok (Value.boolean (b != 0), rest)) ?_).congr fun rest ↦ ?_
    · rintro a _ rfl
      exact .pure fun _ ↦ rfl
    · cases rest <;> rfl
  | false =>
    have hcheck : (fun offset ↦ decide (offset ≥ data.length)) = fun offset ↦ decide (offset + 1 > data.length) :=
      funext fun offset ↦ decide_eq_decide.2 Nat.lt_succ_iff.symm
    rw [hcheck]
    refine ((Follows.checkedSkip (lit "Corrupt boolean tuple field") 1).bind
      (fun bytes rest ↦ .ok (Value.boolean (bytes.headD 0 != 0), rest)) ?_).congr fun rest ↦ ?_
    · exact fun _ _ _ ↦ .pure nofun
    · rcases rest with - | ⟨b, rest⟩ <;> rfl

/-- A value that is the same when it is wanted. -/
abbrev WhenWanted (materialize : Bool) {α : Type} (toValue : α → Value) (a : α) (value : Value) : Prop :=
  materialize = true → toValue a = value

/-- A value, kept or skipped, is read as the offset reader reads it. -/
theorem readValue_follows (materialize : Bool) :
    Follows data (WhenWanted materialize id) (readValue data materialize) HeapFile.decodeField := by
  refine (readTag_follows.bind (fun tag bytes ↦ HeapFile.decodeField (tag :: bytes)) ?_).congr
    fun rest ↦ by cases rest <;> rfl
  rintro tag _ rfl
  simp only [HeapFile.decodeField]
  -- the tag decides alike on both sides
  generalize tag.toNat = t
  rcases t with - | - | - | - | - | - | t
  · exact Follows.pure (R := WhenWanted materialize id) fun _ ↦ rfl
  · refine (readPod_follows 8).bind (fun n rest ↦ .ok (Value.integer (UInt64.ofNat n).toInt64, rest)) ?_
    rintro n _ rfl
    exact .pure fun _ ↦ rfl
  · refine (readPod_follows 8).bind (fun n rest ↦ .ok (Value.real (UInt64.ofNat n), rest)) ?_
    rintro n _ rfl
    exact .pure fun _ ↦ rfl
  · refine (readBytes_follows _ materialize).bind (fun text rest ↦ .ok (Value.text text, rest)) ?_
    exact fun a b h ↦ .pure fun hm ↦ congrArg Value.text (h hm)
  · exact (readBoolean_follows materialize).congr fun rest ↦ by cases rest <;> rfl
  · refine (readBytes_follows _ materialize).bind (fun blob rest ↦ .ok (Value.blob blob, rest)) ?_
    exact fun a b h ↦ .pure fun hm ↦ congrArg Value.blob (h hm)
  · exact .fail _

/-- A raw field, kept or skipped, is read as the offset reader reads it. -/
theorem readRawField_follows (materialize : Bool) :
    Follows data (WhenWanted materialize RawField.toValue) (readRawField data materialize) HeapFile.decodeField := by
  refine (readTag_follows.bind (fun tag bytes ↦ HeapFile.decodeField (tag :: bytes)) ?_).congr
    fun rest ↦ by cases rest <;> rfl
  rintro tag _ rfl
  simp only [HeapFile.decodeField]
  generalize tag.toNat = t
  rcases t with - | - | - | - | - | - | t
  · exact Follows.pure (R := WhenWanted materialize RawField.toValue) fun _ ↦ rfl
  · refine (readPod_follows 8).bind (fun n rest ↦ .ok (Value.integer (UInt64.ofNat n).toInt64, rest)) ?_
    rintro n _ rfl
    exact .pure fun _ ↦ rfl
  · refine (readPod_follows 8).bind (fun n rest ↦ .ok (Value.real (UInt64.ofNat n), rest)) ?_
    rintro n _ rfl
    exact .pure fun _ ↦ rfl
  · refine (readBytes_follows _ materialize).bind (fun text rest ↦ .ok (Value.text text, rest)) ?_
    exact fun a b h ↦ .pure fun hm ↦ congrArg Value.text (h hm)
  · refine ((Follows.checkedNext (lit "Corrupt boolean tuple field")).bind
      (fun b rest ↦ .ok (Value.boolean (b != 0), rest)) ?_).congr fun rest ↦ by cases rest <;> rfl
    rintro b _ rfl
    exact .pure fun _ ↦ rfl
  · refine (readBytes_follows _ materialize).bind (fun blob rest ↦ .ok (Value.blob blob, rest)) ?_
    exact fun a b h ↦ .pure fun hm ↦ congrArg Value.blob (h hm)
  · exact .fail _

/-! ### Loops -/

/-- The state that a run of a loop starts from, behind one field. -/
theorem field_bind {α β : Type} {R : α → Value → Prop} {reader : Decoder α}
    (h : Follows data R reader HeapFile.decodeField) {next : α → Decoder β} {offset : Nat}
    (hoffset : offset ≤ data.length) :
    (∃ e, HeapFile.decodeField (data.drop offset) = .error e ∧ (reader >>= next) offset = .error (.thrown e)) ∨
    ∃ value a, ∃ offset' ≤ data.length, HeapFile.decodeField (data.drop offset) = .ok (value, data.drop offset') ∧
      (reader >>= next) offset = next a offset' ∧ R a value := by
  rcases hfield : HeapFile.decodeField (data.drop offset) with e | ⟨value, rest⟩
  · refine .inl ⟨e, rfl, ?_⟩
    show (reader offset >>= fun result ↦ next result.1 result.2) = _
    rw [h.error hoffset hfield]
    rfl
  · obtain ⟨a, offset', hoffset', hreader, rfl, ha⟩ := h.ok hoffset hfield
    refine .inr ⟨value, a, offset', hoffset', rfl, ?_, ha⟩
    show (reader offset >>= fun result ↦ next result.1 result.2) = _
    rw [hreader]
    rfl

/-- What is stored of the columns found from one on. -/
def storeAll {α β : Type} (store : Nat → α → β → β) : Nat → List α → β → β
  | _, [], stored => stored
  | projected, a :: found, stored => storeAll store (projected + 1) found (store projected a stored)

variable (columns) in
/-- The loop of a projected decoder decodes the columns that are still to come. -/
theorem projectedLoop_eq {α β : Type} {read : Bool → Decoder α} {toValue : α → Value}
    (hread : ∀ m, Follows data (WhenWanted m toValue) (read m) HeapFile.decodeField) (store : Nat → α → β → β)
    (rounds index projected : Nat) (stored : β) {offset : Nat} (hoffset : offset ≤ data.length) :
    match HeapFile.decodeFields (columns.drop projected) rounds index (data.drop offset) with
    | .error e => projectedLoop read store columns rounds index projected stored offset = .error (.thrown e)
    | .ok values => ∃ found offset', found.map toValue = values ∧
        projectedLoop read store columns rounds index projected stored offset =
          .ok (storeAll store projected found stored, offset') := by
  induction rounds generalizing index projected stored offset with
  | zero => exact ⟨[], offset, rfl, rfl⟩
  | succ rounds ih =>
    rw [projectedLoop, HeapFile.decodeFields]
    dsimp only
    rcases field_bind (hread _) hoffset with ⟨e, hfield, hrun⟩ | ⟨value, a, offset', hoffset', hfield, hrun, ha⟩
    · rw [hfield, hrun]
      exact rfl
    · rw [hfield, hrun, Except.ok_bind]
      dsimp only
      rcases hnext : columns[projected]? with - | column
      · -- all columns have been found
        have hdrop : columns.drop projected = [] := List.drop_eq_nil_iff.2 (List.getElem?_eq_none_iff.1 hnext)
        rw [hdrop]
        have hrest := ih (index + 1) projected stored hoffset'
        rw [hdrop] at hrest
        exact hrest
      · obtain ⟨hlt, hget⟩ := List.getElem?_eq_some_iff.1 hnext
        have hdrop : columns.drop projected = column :: columns.drop (projected + 1) := by
          rw [List.drop_eq_getElem_cons hlt, hget]
        rw [hdrop]
        dsimp only
        rcases eq_or_ne column index with rfl | hne
        · have hwanted : (some column == some column) = true := beq_self_eq_true _
          rw [hnext, hwanted] at ha
          rw [hwanted, if_pos rfl, if_pos rfl]
          have hlast : (columns.drop (projected + 1)).isEmpty = decide (projected + 1 = columns.length) := by
            rw [Bool.eq_iff_iff, List.isEmpty_iff, List.drop_eq_nil_iff, decide_eq_true_iff]
            omega
          rw [hlast]
          rcases em (projected + 1 = columns.length) with hdone | hmore
          · rw [if_pos hdone, decide_eq_true hdone, if_pos rfl]
            exact ⟨[a], offset', by rw [List.map_singleton, ha rfl], rfl⟩
          · rw [if_neg hmore, decide_eq_false hmore, if_neg Bool.false_ne_true]
            have hrest := ih (column + 1) (projected + 1) (store projected a stored) hoffset'
            rcases hvalues : HeapFile.decodeFields (columns.drop (projected + 1)) rounds (column + 1)
              (data.drop offset') with e | values
            · rw [hvalues] at hrest
              exact hrest
            · rw [hvalues] at hrest
              obtain ⟨found, offset'', hfound, hloop⟩ := hrest
              exact ⟨a :: found, offset'', by rw [List.map_cons, ha rfl, hfound], hloop⟩
        · have hwanted : (some column == some index) = false := by simpa using hne
          rw [hwanted, if_neg hne, if_neg Bool.false_ne_true]
          have hrest := ih (index + 1) projected stored hoffset'
          rw [hdrop] at hrest
          exact hrest

/-- Appending stores everything in order. -/
theorem storeAll_push {α : Type} (found stored : List α) (projected : Nat) :
    storeAll (fun _ a stored ↦ stored ++ [a]) projected found stored = stored ++ found := by
  induction found generalizing stored projected with
  | nil => rw [List.append_nil]; rfl
  | cons a found ih => rw [storeAll, ih, List.append_assoc, List.singleton_append]

/-- Setting by position stores the same into a prepared list. -/
theorem storeAll_set {α : Type} (blank : α) (found stored : List α) (more : Nat) :
    storeAll (fun projected a stored ↦ stored.set projected a) stored.length found
      (stored ++ List.replicate (found.length + more) blank) = stored ++ found ++ List.replicate more blank := by
  induction found generalizing stored with
  | nil => simp [storeAll]
  | cons a found ih =>
    have hset : (stored ++ List.replicate ((a :: found).length + more) blank).set stored.length a =
        (stored ++ [a]) ++ List.replicate (found.length + more) blank := by
      rw [List.length_cons, Nat.add_right_comm, List.replicate_succ, List.set_append_right _ _ (Nat.le_refl _),
        Nat.sub_self, List.set_cons_zero, List.append_assoc, List.singleton_append]
    have hrest := ih (stored ++ [a])
    rw [List.length_append, List.length_singleton] at hrest
    rw [storeAll, hset, hrest, List.append_assoc stored, List.singleton_append]

/-- In ascending columns the last is the largest. -/
theorem le_last {last : Nat} (hsorted : columns.Pairwise (· < ·)) (hlast : columns.getLast? = some last) :
    ∀ column ∈ columns, column ≤ last := by
  obtain ⟨front, rfl⟩ := List.getLast?_eq_some_iff.1 hlast
  intro column hcolumn
  rcases List.mem_append.1 hcolumn with hfront | hend
  · exact Nat.le_of_lt ((List.pairwise_append.1 hsorted).2.2 column hfront last (List.mem_singleton.2 rfl))
  · exact Nat.le_of_eq (List.mem_singleton.1 hend)

/-- All of the columns are found. -/
theorem length_decodeFields {fields index : Nat} {bytes : Bytes} {values : Tuple}
    (h : HeapFile.decodeFields columns fields index bytes = .ok values) (hsorted : columns.Pairwise (· < ·))
    (hrange : ∀ column ∈ columns, index ≤ column ∧ column < index + fields) : values.length = columns.length := by
  induction fields generalizing columns index bytes values with
  | zero =>
    rcases columns with - | ⟨column, columns⟩
    · rw [← Except.ok.inj h]
      rfl
    · have := hrange column List.mem_cons_self
      omega
  | succ fields ih =>
    rw [HeapFile.decodeFields] at h
    obtain ⟨⟨value, bytes'⟩, -, h⟩ := Except.bind_eq_ok.1 h
    rcases columns with - | ⟨column, columns⟩
    · exact ih h .nil (List.forall_mem_nil _)
    · dsimp only at h
      obtain ⟨hfirst, hsorted'⟩ := List.pairwise_cons.1 hsorted
      have hlast : ∀ c ∈ columns, c < index + 1 + fields := fun c hc ↦ by
        have := (hrange c (List.mem_cons_of_mem _ hc)).2
        omega
      have hcolumn := hrange column List.mem_cons_self
      split at h
      -- A column that is asked for is the first of the list, which is sorted.
      · rename_i hindex
        split at h
        · rename_i hempty
          rw [← Except.ok.inj h, List.isEmpty_iff.1 hempty]
          rfl
        · obtain ⟨rest, hrest, h⟩ := Except.bind_eq_ok.1 h
          rw [← Except.ok.inj h, List.length_cons, List.length_cons,
            ih hrest hsorted' fun c hc ↦ ⟨by have := hfirst c hc; omega, hlast c hc⟩]
      · rename_i hindex
        refine ih h hsorted fun c hc ↦ ?_
        rcases List.mem_cons.1 hc with rfl | hc
        · omega
        · exact ⟨by have := hfirst c hc; omega, hlast c hc⟩

/-- The loop of `decodeRawColumn` decodes the one column. -/
theorem rawColumnLoop_eq {column : Nat} (rounds index : Nat) {offset : Nat} (hoffset : offset ≤ data.length)
    (hcolumn : index ≤ column ∧ column < index + rounds) :
    match HeapFile.decodeFields [column] rounds index (data.drop offset) with
    | .error e => rawColumnLoop data column rounds index offset = .error (.thrown e)
    | .ok values => ∃ field offset', values = [field.toValue] ∧
        rawColumnLoop data column rounds index offset = .ok (field, offset') := by
  induction rounds generalizing index offset with
  | zero => omega
  | succ rounds ih =>
    rw [rawColumnLoop, HeapFile.decodeFields]
    dsimp only
    rcases field_bind (readRawField_follows _) hoffset with
      ⟨e, hfield, hrun⟩ | ⟨value, field, offset', hoffset', hfield, hrun, ha⟩
    · rw [hfield, hrun]
      exact rfl
    · rw [hfield, hrun, Except.ok_bind]
      dsimp only
      rcases eq_or_ne column index with rfl | hne
      · rw [if_pos rfl, if_pos (by simp), if_pos (by simp)]
        exact ⟨field, offset', by rw [ha (beq_self_eq_true _)], rfl⟩
      · rw [if_neg hne, if_neg (by simpa using Ne.symm hne)]
        exact ih (index + 1) hoffset' (by omega)

/-! ### Decoders -/

/-- A decoder that fails at the start fails. -/
theorem run_error {α : Type} {decoder : Decoder α} {failure : ReadFailure Error} (h : decoder 0 = .error failure) :
    run decoder = .error failure := by
  rw [run, h]
  rfl

/-- A decoder that returns at the start returns. -/
theorem run_ok {α : Type} {decoder : Decoder α} {a : α} {offset : Nat} (h : decoder 0 = .ok (a, offset)) :
    run decoder = .ok a := by
  rw [run, h]
  rfl

/-- The two projected decoders, up to what they store. -/
theorem projected_eq {α β : Type} {read : Bool → Decoder α} {toValue : α → Value}
    (hread : ∀ m, Follows data (WhenWanted m toValue) (read m) HeapFile.decodeField) (store : Nat → α → β → β)
    (blank : β) {last : Nat} (hlast : columns.getLast? = some last) :
    let decoder : Decoder β := do
      let count ← readPod data 2
      if invalidColumns columns last count then fail (lit "Invalid projected tuple columns")
      else projectedLoop read store columns count 0 0 blank
    match HeapFile.decodeTupleProjected data columns with
    | .error e => decoder 0 = .error (.thrown e)
    | .ok values => ∃ found offset', found.map toValue = values ∧ found.length = columns.length ∧
        decoder 0 = .ok (storeAll store 0 found blank, offset') := by
  intro decoder
  have hdecoder : decoder 0 = (readPod data 2 0 >>= fun result ↦
      (if invalidColumns columns last result.1 then fail (lit "Invalid projected tuple columns")
      else projectedLoop read store columns result.1 0 0 blank) result.2) := rfl
  simp only [HeapFile.decodeTupleProjected, hlast]
  rcases hpod : HeapFile.readPod 2 (data.drop 0) with e | ⟨count, rest⟩
  · rw [hdecoder, (readPod_follows 2).error (Nat.zero_le _) hpod]
    rw [List.drop_zero] at hpod
    rw [hpod]
    exact rfl
  · obtain ⟨count', offset', hoffset', hcount, rfl, rfl⟩ := (readPod_follows 2).ok (Nat.zero_le _) hpod
    rw [hdecoder, hcount]
    rw [List.drop_zero] at hpod
    rw [hpod, Except.ok_bind, Except.ok_bind]
    dsimp only
    -- Both decoders check the columns against the count before they read a field.
    rcases hinvalid : invalidColumns columns last count' with - | -
    · unfold invalidColumns at hinvalid
      rw [hinvalid, if_neg Bool.false_ne_true, if_neg Bool.false_ne_true]
      obtain ⟨hrange, hsorted⟩ : last < count' ∧ HeapFile.sortedUnique columns := by simpa using hinvalid
      have hloop := projectedLoop_eq columns hread store count' 0 0 blank hoffset'
      rw [List.drop_zero] at hloop
      rcases hvalues : HeapFile.decodeFields columns count' 0 (data.drop offset') with e | values
      · rw [hvalues] at hloop
        exact hloop
      · rw [hvalues] at hloop
        obtain ⟨found, offset'', hfound, hrun⟩ := hloop
        refine ⟨found, offset'', hfound, ?_, hrun⟩
        have hlength := length_decodeFields hvalues (HeapFile.sortedUnique_iff.1 hsorted) fun column hcolumn ↦
          ⟨Nat.zero_le _, by
            have := le_last (HeapFile.sortedUnique_iff.1 hsorted) hlast column hcolumn
            omega⟩
        rw [← hlength, ← hfound, List.length_map]
    · unfold invalidColumns at hinvalid
      rw [hinvalid, if_pos rfl, if_pos rfl]
      exact rfl

/-- The projected decoder is that of the heap file. -/
theorem decodeTupleProjected_eq (data : Bytes) (columns : List Nat) :
    run (decodeTupleProjected data columns) =
      (HeapFile.decodeTupleProjected data columns).mapError .thrown := by
  unfold decodeTupleProjected
  rcases hlast : columns.getLast? with - | last
  · rw [HeapFile.decodeTupleProjected, hlast]
    rfl
  · have hread : ∀ m, Follows data (WhenWanted m id) (readValue data m) HeapFile.decodeField := readValue_follows
    have heq := projected_eq hread
      (fun _ value tuple ↦ tuple ++ [value]) [] hlast
    rcases hvalues : HeapFile.decodeTupleProjected data columns with e | values
    · rw [hvalues] at heq
      exact run_error heq
    · rw [hvalues] at heq
      obtain ⟨found, offset', rfl, -, hrun⟩ := heq
      rw [storeAll_push, List.nil_append] at hrun
      rw [List.map_id]
      exact run_ok hrun

/-- The raw projected decoder finds the same columns. -/
theorem decodeRawProjectedInto_eq (data : Bytes) (columns : List Nat) :
    match HeapFile.decodeTupleProjected data columns with
    | .error e => run (decodeRawProjectedInto data columns) = .error (.thrown e)
    | .ok values => ∃ fields, fields.map RawField.toValue = values ∧
        run (decodeRawProjectedInto data columns) = .ok fields := by
  unfold decodeRawProjectedInto
  rcases hlast : columns.getLast? with - | last
  · rw [HeapFile.decodeTupleProjected, hlast]
    exact ⟨[], rfl, rfl⟩
  · have hread : ∀ m, Follows data (WhenWanted m RawField.toValue) (readRawField data m) HeapFile.decodeField :=
      readRawField_follows
    have heq := projected_eq hread
      (fun projected field fields ↦ fields.set projected field) (List.replicate columns.length {}) hlast
    rcases hvalues : HeapFile.decodeTupleProjected data columns with e | values
    · rw [hvalues] at heq
      exact run_error heq
    · rw [hvalues] at heq
      obtain ⟨found, offset', hfound, hlength, hrun⟩ := heq
      -- every field of the array has been written
      have hset := storeAll_set ({} : RawField) found [] 0
      rw [List.nil_append, Nat.add_zero, hlength, List.replicate_zero, List.append_nil, List.nil_append] at hset
      rw [show (0 : Nat) = ([] : List RawField).length from rfl, hset] at hrun
      exact ⟨found, hfound, run_ok hrun⟩

/-- The decoder of one raw column finds that column. -/
theorem decodeRawColumn_eq (data : Bytes) (column : Nat) :
    match HeapFile.decodeTupleProjected data [column] with
    | .error _ => ∃ e, run (decodeRawColumn data column) = .error (.thrown e)
    | .ok values => ∃ field, values = [field.toValue] ∧ run (decodeRawColumn data column) = .ok field := by
  have hdecoder : decodeRawColumn data column 0 = (readPod data 2 0 >>= fun result ↦
      (if column ≥ result.1 then fail (lit "Invalid projected tuple column")
      else rawColumnLoop data column result.1 0) result.2) := rfl
  simp only [HeapFile.decodeTupleProjected, List.getLast?_singleton]
  rcases hpod : HeapFile.readPod 2 (data.drop 0) with e | ⟨count, rest⟩
  · rw [(readPod_follows 2).error (Nat.zero_le _) hpod] at hdecoder
    rw [List.drop_zero] at hpod
    rw [hpod]
    exact ⟨e, run_error hdecoder⟩
  · obtain ⟨count', offset', hoffset', hcount, rfl, rfl⟩ := (readPod_follows 2).ok (Nat.zero_le _) hpod
    rw [hcount, Except.ok_bind] at hdecoder
    rw [List.drop_zero] at hpod
    rw [hpod, Except.ok_bind]
    dsimp only at hdecoder ⊢
    rcases Nat.lt_or_ge column count' with hlt | hge
    · rw [if_neg (Nat.not_le.2 hlt)] at hdecoder
      rw [if_neg (by simpa [HeapFile.sortedUnique] using hlt)]
      have hloop := rawColumnLoop_eq count' 0 hoffset' (show 0 ≤ column ∧ column < 0 + count' by omega)
      rcases hvalues : HeapFile.decodeFields [column] count' 0 (data.drop offset') with e | values
      · rw [hvalues] at hloop
        exact ⟨e, run_error (hdecoder.trans hloop)⟩
      · rw [hvalues] at hloop
        obtain ⟨field, offset'', hvalue, hrun⟩ := hloop
        exact ⟨field, hvalue, run_ok (hdecoder.trans hrun)⟩
    · rw [if_pos hge] at hdecoder
      rw [if_pos (by simpa using .inl hge)]
      exact ⟨_, run_error hdecoder⟩

/-- The decoder of a whole tuple is that of the heap file. -/
theorem decodeTuple_eq (data : Bytes) :
    run (decodeTuple data) = (HeapFile.decodeTuple data).mapError .thrown := by
  have hdecoder : decodeTuple data 0 = (readPod data 2 0 >>= fun result ↦
      decodeTupleProjected data (List.range result.1) 0) := rfl
  unfold HeapFile.decodeTuple
  rcases hpod : HeapFile.readPod 2 (data.drop 0) with e | ⟨count, rest⟩
  · rw [(readPod_follows 2).error (Nat.zero_le _) hpod] at hdecoder
    rw [List.drop_zero] at hpod
    rw [hpod]
    exact run_error hdecoder
  · obtain ⟨count', offset', hoffset', hcount, rfl, rfl⟩ := (readPod_follows 2).ok (Nat.zero_le _) hpod
    rw [hcount, Except.ok_bind] at hdecoder
    rw [List.drop_zero] at hpod
    rw [hpod, Except.ok_bind]
    have hsame : run (decodeTuple data) = run (decodeTupleProjected data (List.range count')) := by
      rw [run, run, hdecoder]
    rw [hsame]
    exact decodeTupleProjected_eq data _

end TupleBytes

/-! ### The decoder in Python -/

/-- A text is read back from its bytes. -/
theorem decodeUtf8_encodeUtf8 (text : List Char) : decodeUtf8 (encodeUtf8 text) = some text := by
  have hdecode : (encodeUtf8 text).toByteArray.utf8Decode? = some text.toArray :=
    List.utf8Decode?_utf8Encode
  rw [decodeUtf8, hdecode, Option.map_some, List.toList_toArray]

/-- The same value, in Python and in the engine. -/
def PyValue.Same : PyValue → Value → Prop
  | .none, .null => True
  | .int n, .integer m => n = m.toInt
  | .float bits, .real bits' => bits = bits'
  | .str text, .text data => encodeUtf8 text = data
  | .bool b, .boolean b' => b = b'
  | .bytes data, .blob data' => data = data'
  | _, _ => False

/-- A text is valid UTF-8. -/
def TextValid : Value → Prop
  | .text data => ∃ text, data = encodeUtf8 text
  | _ => True

namespace PyTuple

variable {payload rest : Bytes} {offset : Nat}

theorem drop_add {bytes : Bytes} (h : payload.drop offset = bytes ++ rest) :
    payload.drop (offset + bytes.length) = rest := by
  rw [← List.drop_drop, h, List.drop_left]

/-- The tag in front of a payload. -/
theorem item_eq {b : UInt8} (h : payload.drop offset = b :: rest) :
    item payload offset = .ok b ∧ payload.drop (offset + 1) = rest := by
  have hget : payload[offset]? = some b := by
    rw [← Nat.add_zero offset, ← List.getElem?_drop, h, List.getElem?_cons_zero]
  exact ⟨by rw [item, hget], drop_add (show payload.drop offset = [b] ++ rest from h)⟩

theorem slice_eq {bytes : Bytes} (h : payload.drop offset = bytes ++ rest) :
    payload.slice offset bytes.length = bytes := by
  rw [List.slice, h, List.take_left]

/-- A little-endian integer is unpacked. -/
theorem unpackFrom_eq {width n : Nat} (hwidth : 0 < width) (hn : n < 256 ^ width)
    (h : payload.drop offset = LittleEndian.encode width n ++ rest) :
    unpackFrom width payload offset = .ok n := by
  have hlength := congrArg List.length h
  rw [List.length_drop, List.length_append, LittleEndian.length_encode] at hlength
  have hslice := slice_eq h
  rw [LittleEndian.length_encode] at hslice
  rw [unpackFrom, if_pos (by omega), hslice, LittleEndian.decode_encode_of_lt hn]

/-- The length in front of the bytes of a text or a blob. -/
theorem unpackBytes_eq {data : Bytes} (hlength : data.length < 4294967296)
    (h : payload.drop offset = HeapFile.encodeBytes data ++ rest) :
    unpackFrom 4 payload offset = .ok data.length ∧ payload.slice (offset + 4) data.length = data := by
  rw [HeapFile.encodeBytes, List.append_assoc] at h
  have hdata := drop_add h
  rw [LittleEndian.length_encode] at hdata
  exact ⟨unpackFrom_eq (by decide) hlength h, slice_eq hdata⟩

/-- The reader decodes a value that was encoded. -/
theorem decodeField_eq {value : Value} (hfits : HeapFile.ValueFits value) (hvalid : TextValid value)
    (h : payload.drop offset = HeapFile.encodeValue value ++ rest) :
    ∃ v, decodeField payload offset = .ok (v, offset + (HeapFile.encodeValue value).length) ∧ v.Same value := by
  obtain ⟨htag, hpayload⟩ := item_eq h
  unfold decodeField
  rw [htag, Except.ok_bind]
  -- By the tag byte: fixed-width values read eight bytes or one, texts and blobs a length first.
  cases value with
  | null => exact ⟨.none, rfl, trivial⟩
  | integer n =>
    have hn : n.toUInt64.toNat < 256 ^ 8 := n.toUInt64.toNat_lt
    refine ⟨.int n.toInt, ?_, rfl⟩
    show (unpackFrom 8 payload (offset + 1) >>= fun m ↦
      pure (PyValue.int (UInt64.ofNat m).toInt64.toInt, offset + 1 + 8)) = _
    rw [unpackFrom_eq (by decide) hn hpayload, Except.ok_bind, UInt64.ofNat_toNat, Int64.toInt64_toUInt64]
    rfl
  | real bits =>
    have hn : bits.toNat < 256 ^ 8 := bits.toNat_lt
    refine ⟨.float bits, ?_, rfl⟩
    show (unpackFrom 8 payload (offset + 1) >>= fun m ↦
      pure (PyValue.float (UInt64.ofNat m), offset + 1 + 8)) = _
    rw [unpackFrom_eq (by decide) hn hpayload, Except.ok_bind, UInt64.ofNat_toNat]
    rfl
  | boolean b =>
    refine ⟨.bool b, ?_, rfl⟩
    show (item payload (offset + 1) >>= fun m ↦ pure (PyValue.bool (m != 0), offset + 1 + 1)) = _
    rw [(item_eq hpayload).1]
    cases b <;> rfl
  | text data =>
    obtain ⟨text, rfl⟩ := hvalid
    obtain ⟨hlength, hdata⟩ := unpackBytes_eq hfits hpayload
    refine ⟨.str text, ?_, rfl⟩
    show (unpackFrom 4 payload (offset + 1) >>= _) = _
    rw [hlength, Except.ok_bind, hdata, decodeUtf8_encodeUtf8]
    simp only [HeapFile.encodeValue, HeapFile.encodeBytes, List.length_cons, List.length_append,
      LittleEndian.length_encode]
    congr 2
    omega
  | blob data =>
    obtain ⟨hlength, hdata⟩ := unpackBytes_eq hfits hpayload
    refine ⟨.bytes data, ?_, rfl⟩
    show (unpackFrom 4 payload (offset + 1) >>= fun length ↦
      pure (PyValue.bytes (payload.slice (offset + 1 + 4) length), offset + 1 + 4 + length)) = _
    rw [hlength, Except.ok_bind, hdata]
    simp only [HeapFile.encodeValue, HeapFile.encodeBytes, List.length_cons, List.length_append,
      LittleEndian.length_encode]
    congr 2
    omega

/-- The reader decodes the values of a tuple one after the other. -/
theorem decodeFields_eq {values : Tuple} (hfits : ∀ value ∈ values, HeapFile.ValueFits value)
    (hvalid : ∀ value ∈ values, TextValid value)
    (h : payload.drop offset = values.flatMap HeapFile.encodeValue) :
    ∃ decoded, decodeFields payload values.length offset = .ok decoded ∧
      List.Forall₂ PyValue.Same decoded values := by
  induction values generalizing offset with
  | nil => exact ⟨[], rfl, .nil⟩
  | cons value values ih =>
    rw [List.flatMap_cons] at h
    obtain ⟨v, hfield, hsame⟩ := decodeField_eq (hfits value List.mem_cons_self) (hvalid value List.mem_cons_self) h
    obtain ⟨decoded, hrest, hall⟩ := ih (fun w hw ↦ hfits w (List.mem_cons_of_mem _ hw))
      (fun w hw ↦ hvalid w (List.mem_cons_of_mem _ hw)) (drop_add h)
    refine ⟨v :: decoded, ?_, .cons hsame hall⟩
    rw [List.length_cons, decodeFields, hfield, Except.ok_bind]
    show (decodeFields payload values.length _ >>= fun rest ↦ pure (v :: rest)) = _
    rw [hrest]
    rfl

/-- `_decode_tuple` gives back the values that were encoded. -/
theorem decodeTuple_encode {tuple : Tuple} {bytes : Bytes} (h : HeapFile.encodeTuple tuple = .ok bytes)
    (hfits : ∀ value ∈ tuple, HeapFile.ValueFits value) (hvalid : ∀ value ∈ tuple, TextValid value) :
    ∃ decoded, decodeTuple bytes = .ok decoded ∧ List.Forall₂ PyValue.Same decoded tuple := by
  obtain ⟨hcount, rfl⟩ := HeapFile.encodeTuple_eq_ok h
  have hdrop : (LittleEndian.encode 2 tuple.length ++ tuple.flatMap HeapFile.encodeValue).drop 2 =
      tuple.flatMap HeapFile.encodeValue :=
    List.drop_left' (LittleEndian.length_encode 2 _)
  rw [decodeTuple, unpackFrom_eq (by decide) (by omega)
    (List.drop_zero (l := LittleEndian.encode 2 tuple.length ++ tuple.flatMap HeapFile.encodeValue)), Except.ok_bind]
  exact decodeFields_eq hfits hvalid hdrop

end PyTuple

/-! ### All of them -/

namespace TupleBytes

/-- **The two projected decoders agree**: both fail, or both find the same columns. -/
theorem projections_agree (data : Bytes) (columns : List Nat) :
    (∃ e e', run (decodeTupleProjected data columns) = .error (.thrown e) ∧
      run (decodeRawProjectedInto data columns) = .error (.thrown e')) ∨
    ∃ fields, run (decodeRawProjectedInto data columns) = .ok fields ∧
      run (decodeTupleProjected data columns) = .ok (fields.map RawField.toValue) := by
  have hraw := decodeRawProjectedInto_eq data columns
  rw [decodeTupleProjected_eq]
  rcases hvalues : HeapFile.decodeTupleProjected data columns with e | values
  · rw [hvalues] at hraw
    exact .inl ⟨e, e, rfl, hraw⟩
  · rw [hvalues] at hraw
    obtain ⟨fields, rfl, hrun⟩ := hraw
    exact .inr ⟨fields, hrun, rfl⟩

/-- The decoder of one raw column agrees with the projected one. -/
theorem rawColumn_agrees (data : Bytes) (column : Nat) :
    (∃ e e', run (decodeTupleProjected data [column]) = .error (.thrown e) ∧
      run (decodeRawColumn data column) = .error (.thrown e')) ∨
    ∃ field, run (decodeRawColumn data column) = .ok field ∧
      run (decodeTupleProjected data [column]) = .ok [field.toValue] := by
  have hraw := decodeRawColumn_eq data column
  rw [decodeTupleProjected_eq]
  rcases hvalues : HeapFile.decodeTupleProjected data [column] with e | values
  · rw [hvalues] at hraw
    obtain ⟨e', hrun⟩ := hraw
    exact .inl ⟨e, e', rfl, hrun⟩
  · rw [hvalues] at hraw
    obtain ⟨field, rfl, hrun⟩ := hraw
    exact .inr ⟨field, hrun, rfl⟩

theorem mapError_ne_outOfBounds {α : Type} (x : Except Error α) :
    x.mapError ReadFailure.thrown ≠ .error .outOfBounds := by
  rcases x with e | a
  · exact fun h ↦ nomatch Except.error.inj h
  · exact nofun

/-- **No decoder reads out of bounds**, whatever the bytes. -/
theorem never_outOfBounds (data : Bytes) (columns : List Nat) (column : Nat) :
    run (decodeTuple data) ≠ .error .outOfBounds ∧
      run (decodeTupleProjected data columns) ≠ .error .outOfBounds ∧
      run (decodeRawProjectedInto data columns) ≠ .error .outOfBounds ∧
      run (decodeRawColumn data column) ≠ .error .outOfBounds := by
  refine ⟨?_, ?_, ?_, ?_⟩
  · rw [decodeTuple_eq]
    exact mapError_ne_outOfBounds _
  · rw [decodeTupleProjected_eq]
    exact mapError_ne_outOfBounds _
  · rcases projections_agree data columns with ⟨_, _, -, hrun⟩ | ⟨_, hrun, -⟩ <;> rw [hrun] <;> nofun
  · rcases rawColumn_agrees data column with ⟨_, _, -, hrun⟩ | ⟨_, hrun, -⟩ <;> rw [hrun] <;> nofun

theorem mapError_eq_ok {α : Type} {x : Except Error α} {a : α} :
    x.mapError ReadFailure.thrown = .ok a ↔ x = .ok a := by
  rcases x with e | b
  · exact ⟨nofun, nofun⟩
  · exact ⟨fun h ↦ congrArg _ (Except.ok.inj h), fun h ↦ congrArg _ (Except.ok.inj h)⟩

/-- What can be decoded can be projected. -/
theorem projected_of_decodeTuple {data : Bytes} {tuple : Tuple} {columns : List Nat}
    (h : run (decodeTuple data) = .ok tuple) (hsorted : columns.Pairwise (· < ·))
    (hrange : ∀ column ∈ columns, column < tuple.length) :
    run (decodeTupleProjected data columns) = .ok (columns.filterMap (tuple[·]?)) := by
  rw [decodeTuple_eq, mapError_eq_ok] at h
  obtain ⟨body, hread, hall⟩ := HeapFile.decodeTuple_eq_ok h
  rw [decodeTupleProjected_eq, mapError_eq_ok]
  exact HeapFile.decodeTupleProjected_of_decodeAll hread hall (HeapFile.sortedUnique_iff.2 hsorted) hrange

/-- All decoders agree, undo the encoder, and read no more than there is. -/
theorem tupleDecoders_agree :
    -- a tuple that is not too long can be encoded
    (∀ tuple : Tuple, tuple.length ≤ 65535 → ∃ bytes, HeapFile.encodeTuple tuple = .ok bytes) ∧
    -- and decoded, by `decodeTuple` and by `_decode_tuple`
    (∀ tuple bytes, HeapFile.encodeTuple tuple = .ok bytes → (∀ value ∈ tuple, HeapFile.ValueFits value) →
      run (decodeTuple bytes) = .ok tuple ∧
      ((∀ value ∈ tuple, TextValid value) → ∃ decoded, PyTuple.decodeTuple bytes = .ok decoded ∧
        List.Forall₂ PyValue.Same decoded tuple)) ∧
    -- the two projections both throw, or give the same values
    (∀ data columns,
      (∃ e e', run (decodeTupleProjected data columns) = .error (.thrown e) ∧
        run (decodeRawProjectedInto data columns) = .error (.thrown e')) ∨
      ∃ fields, run (decodeRawProjectedInto data columns) = .ok fields ∧
        run (decodeTupleProjected data columns) = .ok (fields.map RawField.toValue)) ∧
    -- and so do the projection to one column and `decodeRawColumn`
    (∀ data column,
      (∃ e e', run (decodeTupleProjected data [column]) = .error (.thrown e) ∧
        run (decodeRawColumn data column) = .error (.thrown e')) ∨
      ∃ field, run (decodeRawColumn data column) = .ok field ∧
        run (decodeTupleProjected data [column]) = .ok [field.toValue]) ∧
    -- no decoder reads where there is no data
    (∀ data columns column, run (decodeTuple data) ≠ .error .outOfBounds ∧
      run (decodeTupleProjected data columns) ≠ .error .outOfBounds ∧
      run (decodeRawProjectedInto data columns) ≠ .error .outOfBounds ∧
      run (decodeRawColumn data column) ≠ .error .outOfBounds) ∧
    -- what can be decoded can be projected
    ∀ data tuple columns, run (decodeTuple data) = .ok tuple → columns.Pairwise (· < ·) →
      (∀ column ∈ columns, column < tuple.length) →
      run (decodeTupleProjected data columns) = .ok (columns.filterMap (tuple[·]?)) := by
  refine ⟨fun tuple hlength ↦ ?_, fun tuple bytes h hfits ↦ ⟨?_, PyTuple.decodeTuple_encode h hfits⟩,
    projections_agree, rawColumn_agrees, never_outOfBounds, fun data tuple columns ↦ projected_of_decodeTuple⟩
  · rw [HeapFile.encodeTuple, if_neg (Nat.not_lt.2 hlength)]
    exact ⟨_, rfl⟩
  · rw [decodeTuple_eq, mapError_eq_ok]
    exact HeapFile.decodeTuple_encode_of_fits h hfits

end TupleBytes

end SkibidiQL
