import SkibidiQL.Base.ExceptRules
import SkibidiQL.Query.Database
import SkibidiQL.Storage.ValueOrder

/-!
# The primary key and its index

`INSERT` and `UPDATE` keep the keys of a table in the type of their column and refuse a key that `==` finds in
another row. The index compares by `Value::compare`. The two agree until a NaN comes in: it equals nothing and
compares as equal with every number.
-/

namespace SkibidiQL

/-- The primary-key invariant of the rows of a table: keys have the type of their column, which is never
NULL, and no two rows have equal keys. -/
structure PrimaryKeyed (position : Nat) (primary : ColumnMeta) (rows : List StoredRow) : Prop where
  typed : ∀ row ∈ rows, declaredValueType primary = .ok (row.field position).type
  distinct : rows.Pairwise fun row row' ↦ ¬(row.field position == row'.field position)

/-- No column is declared to hold NULL. -/
theorem declaredValueType_ne_null {column : ColumnMeta} {type : ValueType}
    (h : declaredValueType column = .ok type) : type ≠ .null := by
  rintro rfl
  simp only [declaredValueType] at h
  split at h
  · cases h
  · split at h
    · cases h
    · split at h
      · cases h
      · split at h <;> cases h

namespace PrimaryKeyed

variable {position : Nat} {primary : ColumnMeta} {rows : List StoredRow} {row row' : StoredRow}

theorem same_type (h : PrimaryKeyed position primary rows) (hrow : row ∈ rows) (hrow' : row' ∈ rows) :
    (row.field position).type = (row'.field position).type :=
  Except.ok.inj ((h.typed row hrow).symm.trans (h.typed row' hrow'))

theorem not_isNull (h : PrimaryKeyed position primary rows) (hrow : row ∈ rows) :
    (row.field position).isNull = false := by
  rw [Value.isNull, beq_eq_false_iff_ne]
  exact declaredValueType_ne_null (h.typed row hrow)

/-- Rows with equal keys are the same. -/
theorem eq_of_beq (h : PrimaryKeyed position primary rows) (hrow : row ∈ rows) (hrow' : row' ∈ rows)
    (heq : row.field position == row'.field position) : row = row' := by
  have hsymm : Std.Symm fun row row' : StoredRow ↦ ¬(row.field position == row'.field position) :=
    ⟨fun row row' hne ↦ by rwa [Value.beq_comm]⟩
  by_contra hne
  exact h.distinct.forall hrow hrow' hne heq

end PrimaryKeyed

/-- A value that is not a NaN does not become one in the type of a column. -/
theorem coerceValue_isNaN {column : ColumnMeta} {value key : Value} (h : coerceValue column value = .ok key)
    (hvalue : value.isNaN = false) : key.isNaN = false := by
  simp only [coerceValue] at h
  split at h
  · cases h
    exact hvalue
  · split at h
    · split at h
      · obtain ⟨n, -, h⟩ := Except.bind_eq_ok.1 h
        cases h
        exact Value.isNaN_integer n
      · cases h
    · split at h
      · split at h
        · rename_i hnumeric
          cases h
          exact Float.ofBits_toBits_isNaN (Value.toFloat_isNaN hnumeric hvalue)
        · cases h
      · split at h
        · cases h
          rfl
        · split at h
          · split at h
            · cases h
              exact hvalue
            · cases h
          · cases h

/-! ### The keys of an index -/

variable {position : Nat} {primary : ColumnMeta} {rows : List StoredRow} {entries : List (Value × RowId)}
  {index : BPlusTree Value} {key : Value} {id : RowId}

/-- The keys of a table. -/
def keysOf (position : Nat) (rows : List StoredRow) : Set Value :=
  {v | ∃ row ∈ rows, row.field position = v}

/-- No two rows have keys that compare as equal. -/
def Separated (position : Nat) (rows : List StoredRow) : Prop :=
  ∀ row ∈ rows, ∀ row' ∈ rows, (row.field position).compare (row'.field position) = .eq → row = row'

/-- The entries are the keys with the places of their rows. -/
theorem mem_entries (hentries : entries.Perm (keyedRows position rows)) {entry : Value × RowId} :
    entry ∈ entries ↔ ∃ row ∈ rows, (row.field position, row.id) = entry := by
  rw [hentries.mem_iff, keyedRows, List.mem_map]

/-- Their keys are those of the rows. -/
theorem mem_keysOf (hentries : entries.Perm (keyedRows position rows)) :
    ∀ entry ∈ entries, entry.1 ∈ keysOf position rows := by
  intro entry hentry
  obtain ⟨row, hrow, rfl⟩ := (mem_entries hentries).1 hentry
  exact ⟨row, hrow, rfl⟩

/-- Values of at most two types are in a strict total order when no two compare as equal. -/
theorem strictTotalOn_of_types {D : Set Value} {t u : ValueType} (htype : ∀ v ∈ D, v.type = t ∨ v.type = u)
    (heq : ∀ v ∈ D, ∀ w ∈ D, v.compare w = .eq → v = w) : BPlusTree.StrictTotalOn Value.compare D where
  eq_iff v hv w hw := ⟨heq v hv w hw, fun h ↦ h ▸ Value.compare_self v⟩
  swap_eq v _ w _ := Value.compare_swap v w
  lt_trans v hv w hw x hx := by
    refine Value.compare_lt_trans ?_
    rcases htype v hv with hv | hv <;> rcases htype w hw with hw | hw <;> rcases htype x hx with hx | hx <;>
      simp [hv, hw, hx]

/-- There is a type that all keys have. -/
theorem PrimaryKeyed.exists_type (h : PrimaryKeyed position primary rows) :
    ∃ t, ∀ row ∈ rows, (row.field position).type = t := by
  cases rows with
  | nil => exact ⟨.null, by simp⟩
  | cons first rows => exact ⟨_, fun row hrow ↦ h.same_type hrow List.mem_cons_self⟩

/-- Separated keys, with a key that compares as equal with none of them or without one, are in a strict
total order. -/
theorem Separated.strictTotalOn (hseparated : Separated position rows)
    (h : PrimaryKeyed position primary rows) (key : Value) {D : Set Value}
    (hD : ∀ v ∈ D, v = key ∧ (∀ row ∈ rows, (row.field position).compare key ≠ .eq) ∨
      v ∈ keysOf position rows) : BPlusTree.StrictTotalOn Value.compare D := by
  obtain ⟨t, ht⟩ := h.exists_type
  refine strictTotalOn_of_types (t := t) (u := key.type) ?_ ?_
  · intro v hv
    rcases hD v hv with ⟨rfl, -⟩ | ⟨row, hrow, rfl⟩
    · exact .inr rfl
    · exact .inl (ht row hrow)
  · intro v hv w hw heq
    rcases hD v hv with ⟨rfl, hnone⟩ | ⟨row, hrow, rfl⟩ <;> rcases hD w hw with ⟨rfl, hnone'⟩ | ⟨row', hrow', rfl⟩
    · rfl
    · rw [Value.compare_swap] at heq
      exact absurd (by simpa using heq) (hnone row' hrow')
    · exact absurd heq (hnone' row hrow)
    · rw [hseparated row hrow row' hrow' heq]

/-- Separated keys are in a strict total order. -/
theorem Separated.keysOf_strictTotalOn (hseparated : Separated position rows)
    (h : PrimaryKeyed position primary rows) :
    BPlusTree.StrictTotalOn Value.compare (keysOf position rows) :=
  hseparated.strictTotalOn h .null fun _ hv ↦ .inr hv

/-- Keys that are not NaN are separated. -/
theorem separated_of_not_isNaN (h : PrimaryKeyed position primary rows)
    (hnan : ∀ row ∈ rows, (row.field position).isNaN = false) : Separated position rows :=
  fun row hrow row' hrow' heq ↦
    h.eq_of_beq hrow hrow' ((Value.compare_eq_iff (hnan row hrow) (hnan row' hrow')).1 heq)

/-- The keys of an index are all different. -/
theorem nodup_entries (hseparated : Separated position rows) (hids : (rows.map (·.id)).Nodup)
    (hentries : entries.Perm (keyedRows position rows)) : (entries.map (·.1)).Nodup := by
  rw [(hentries.map _).nodup_iff, keyedRows, List.map_map, List.Nodup, List.pairwise_map]
  refine (List.pairwise_map.1 hids).imp_of_mem fun {row row'} hrow hrow' hne heq ↦ hne ?_
  have hfield : row.field position = row'.field position := heq
  rw [hseparated row hrow row' hrow' (by rw [hfield]; exact Value.compare_self _)]

theorem ties_of_isNaN {v w : Value} (hv : v.isNumeric) (hw : w.isNumeric) (h : v.isNaN ∨ w.isNaN) :
    BPlusTree.Ties Value.compare v w :=
  ⟨Value.compare_isNaN hw hv h.symm, Value.compare_isNaN hv hw h⟩

/-- A NaN is the only key of an index. -/
theorem subsingleton_of_isNaN (h : PrimaryKeyed position primary rows)
    (hentries : entries.Perm (keyedRows position rows)) (hindex : buildIndex entries = .ok index)
    {nan : StoredRow} (hrow : nan ∈ rows) (hnan : (nan.field position).isNaN) : rows = [nan] := by
  have hnumeric : ∀ entry ∈ entries, entry.1.isNumeric := by
    intro entry hentry
    obtain ⟨row, hrow', rfl⟩ := (mem_entries hentries).1 hentry
    rw [Value.isNumeric, h.same_type hrow' hrow]
    exact Value.isNumeric_of_isNaN hnan
  obtain ⟨before, after, rfl⟩ := List.append_of_mem ((mem_entries hentries).2 ⟨nan, hrow, rfl⟩)
  have hbefore : before = [] := by
    by_contra hne
    refine BPlusTree.build_append_tie hne (fun entry hentry ↦ ?_) hindex
    exact ties_of_isNaN (Value.isNumeric_of_isNaN hnan)
      (hnumeric entry (List.mem_append_left _ hentry)) (.inl hnan)
  have hafter : after = [] := by
    cases after with
    | nil => rfl
    | cons next after =>
      subst hbefore
      have hfirst : buildIndex ([(nan.field position, nan.id)] ++ next :: after) = .ok index := hindex
      refine absurd hfirst (BPlusTree.build_append_tie (List.cons_ne_nil _ []) fun entry hentry ↦ ?_)
      obtain rfl := List.mem_singleton.1 hentry
      exact ties_of_isNaN (hnumeric next (by simp)) (Value.isNumeric_of_isNaN hnan) (.inr hnan)
  subst hbefore hafter
  have hlength : rows.length = 1 := by
    rw [← List.length_map, ← keyedRows, ← hentries.length_eq]
    rfl
  obtain ⟨row, rfl⟩ := List.length_eq_one_iff.1 hlength
  rw [List.mem_singleton.1 hrow]

/-- The index of a table can be built exactly when the keys do not compare as equal. -/
theorem exists_index_iff (h : PrimaryKeyed position primary rows) (hids : (rows.map (·.id)).Nodup)
    (hentries : entries.Perm (keyedRows position rows)) :
    (∃ index, buildIndex entries = .ok index) ↔ Separated position rows := by
  constructor
  · rintro ⟨index, hindex⟩
    by_cases hnan : ∃ row ∈ rows, (row.field position).isNaN
    · obtain ⟨nan, hnan, hisNaN⟩ := hnan
      obtain rfl := subsingleton_of_isNaN h hentries hindex hnan hisNaN
      intro row hrow row' hrow' _
      rw [List.mem_singleton.1 hrow, List.mem_singleton.1 hrow']
    · exact separated_of_not_isNaN h fun row hrow ↦ Bool.eq_false_iff.2 fun hn ↦ hnan ⟨row, hrow, hn⟩
  · exact fun hseparated ↦ BPlusTree.exists_build (hseparated.keysOf_strictTotalOn h) 32
      (mem_keysOf hentries) (nodup_entries hseparated hids hentries)

/-! ### Lookups in the index -/

section Find

variable (h : PrimaryKeyed position primary rows) (hids : (rows.map (·.id)).Nodup)
  (hentries : entries.Perm (keyedRows position rows)) (hindex : buildIndex entries = .ok index)

include h hids hentries hindex

/-- The index finds nothing for a key that compares as equal with none of its keys. -/
theorem find_index_eq_none (hnone : ∀ row ∈ rows, (row.field position).compare key ≠ .eq) :
    index.find Value.compare key = none := by
  have hseparated := (exists_index_iff h hids hentries).1 ⟨index, hindex⟩
  have hD : BPlusTree.StrictTotalOn Value.compare {v | v = key ∨ v ∈ keysOf position rows} :=
    hseparated.strictTotalOn h key fun v hv ↦ hv.imp_left fun hv ↦ ⟨hv, hnone⟩
  rw [Option.eq_none_iff_forall_ne_some]
  intro id hid
  obtain ⟨entry, hentry, heq, -⟩ := (BPlusTree.find_build_iff hD
    (fun entry he ↦ .inr (mem_keysOf hentries entry he)) (nodup_entries hseparated hids hentries) hindex
    (.inl rfl)).1 hid
  obtain ⟨row, hrow, rfl⟩ := (mem_entries hentries).1 hentry
  exact hnone row hrow heq

/-- The index finds some row for a key that compares as equal with a key, and that row when neither is a
NaN. -/
theorem find_index_eq_some {row : StoredRow} (hrow : row ∈ rows)
    (heq : (row.field position).compare key = .eq) :
    ∃ id, index.find Value.compare key = some id ∧
      ((row.field position).isNaN = false → key.isNaN = false → id = row.id) := by
  have hseparated := (exists_index_iff h hids hentries).1 ⟨index, hindex⟩
  have hne : entries ≠ [] := List.ne_nil_of_mem ((mem_entries hentries).2 ⟨row, hrow, rfl⟩)
  by_cases hnan : (row.field position).isNaN ∨ key.isNaN
  · -- the key ties with all keys
    have hnumeric : (row.field position).isNumeric ∧ key.isNumeric := by
      by_contra hnot
      have hor : (row.field position).isNumeric = false ∨ key.isNumeric = false := by
        rw [not_and_or] at hnot
        exact hnot.imp Bool.eq_false_iff.2 Bool.eq_false_iff.2
      rcases Value.eq_of_compare_eq hor heq with hsame
      rw [hsame, or_self] at hnan
      rw [hsame, or_self, Value.isNumeric_of_isNaN hnan] at hor
      cases hor
    have hties : ∀ entry ∈ entries, BPlusTree.Ties Value.compare key entry.1 := by
      intro entry hentry
      obtain ⟨row', hrow', rfl⟩ := (mem_entries hentries).1 hentry
      have hnumeric' : (row'.field position).isNumeric := by
        rw [Value.isNumeric, h.same_type hrow' hrow]
        exact hnumeric.1
      refine ties_of_isNaN hnumeric.2 hnumeric' (hnan.symm.imp_right fun hrowNaN ↦ ?_)
      have hsingle := subsingleton_of_isNaN h hentries hindex hrow hrowNaN
      rw [hsingle] at hrow'
      rwa [List.mem_singleton.1 hrow']
    obtain ⟨id, hid⟩ := BPlusTree.find_of_build hindex hne hties
    refine ⟨id, hid, fun hrowNaN hkeyNaN ↦ ?_⟩
    rw [hrowNaN, hkeyNaN, or_self] at hnan
    cases hnan
  · -- the key compares like the one it is equal to
    obtain ⟨hrowNaN, hkeyNaN⟩ := not_or.1 hnan
    have halike : BPlusTree.Alike Value.compare (· ∈ keysOf position rows) key (row.field position) := by
      rintro _ ⟨row', hrow', rfl⟩
      have hleft := Value.compare_congr_left (h.same_type hrow' hrow) (Bool.eq_false_iff.2 hrowNaN)
        (Bool.eq_false_iff.2 hkeyNaN) heq
      refine ⟨hleft, ?_⟩
      rw [Value.compare_swap, Value.compare_swap (row'.field position), hleft]
    refine ⟨row.id, ?_, fun _ _ ↦ rfl⟩
    rw [BPlusTree.find_congr halike (BPlusTree.build_populated hne (mem_keysOf hentries) hindex),
      BPlusTree.find_build_iff (hseparated.keysOf_strictTotalOn h) (mem_keysOf hentries)
        (nodup_entries hseparated hids hentries) hindex ⟨row, hrow, rfl⟩]
    exact ⟨_, (mem_entries hentries).2 ⟨row, hrow, rfl⟩, Value.compare_self _, rfl⟩

end Find

end SkibidiQL
