import SkibidiQL.Base.Bitmap
import SkibidiQL.Base.ExceptRules
import SkibidiQL.Base.ListRules
import SkibidiQL.Storage.ValueOrder
import SkibidiQL.Storage.ValueText

/-!
# Typed vectors

`TypedVector` keeps the values of one column of a batch: a bitmap of the NULLs and a vector of one type. A
vector holds the values that were appended to it when none of them made it change its type.

An access that the source leaves undefined is an error of its own.
-/

namespace SkibidiQL

open Bytes

/-! ### Errors -/

/-- What ends a vectorized computation: an exception, or an access that the source does not check. -/
inductive VectorError where
  | thrown (message : Error)
  | nullDereference
  | outOfRange
deriving DecidableEq

/-- What may throw. -/
def thrown {α : Type} (x : Except Error α) : Except VectorError α :=
  x.mapError .thrown

@[simp]
theorem thrown_ok {α : Type} (a : α) : thrown (.ok a) = .ok a :=
  rfl

@[simp]
theorem thrown_error {α : Type} (message : Error) :
    thrown (.error message : Except Error α) = .error (.thrown message) :=
  rfl

/-- `operator[]` of a `std::vector`. -/
def elementAt {α : Type} (xs : List α) (index : Nat) : Except VectorError α :=
  match xs[index]? with
  | some x => pure x
  | none => throw .outOfRange

/-- `operator*` of a pointer. -/
def dereference {α : Type} : Option α → Except VectorError α
  | some a => pure a
  | none => throw .nullDereference

theorem elementAt_of_getElem? {α : Type} {xs : List α} {index : Nat} {x : α} (h : xs[index]? = some x) :
    elementAt xs index = .ok x := by
  rw [elementAt, h]
  rfl

/-! ### Storage -/

/-- `TypedVector::Storage`, doubles by their bits. The type of the vector is the one of its storage. -/
inductive VectorStorage where
  | null
  | integer (values : List Int64)
  | real (values : List UInt64)
  | text (values : List Bytes)
  | boolean (values : List Bool)
  | blob (values : List Bytes)

namespace VectorStorage

/-- `TypedVector::type`. -/
def type : VectorStorage → ValueType
  | null => .null
  | integer _ => .integer
  | real _ => .real
  | text _ => .text
  | boolean _ => .boolean
  | blob _ => .blob

/-- The entries as values. -/
def elements : VectorStorage → List Value
  | null => []
  | integer values => values.map .integer
  | real values => values.map .real
  | text values => values.map .text
  | boolean values => values.map .boolean
  | blob values => values.map .blob

/-- A storage of this type with `size` default entries. -/
def filled (size : Nat) : ValueType → VectorStorage
  | .null => null
  | .integer => integer (List.replicate size 0)
  | .real => real (List.replicate size 0)
  | .text => text (List.replicate size [])
  | .boolean => boolean (List.replicate size false)
  | .blob => blob (List.replicate size [])

/-- The change of type that a value asks for. -/
def admitType (size : Nat) (input : Value) (storage : VectorStorage) : VectorStorage :=
  if input.isNull then storage
  else match storage with
    | null => filled size input.type
    | integer values =>
      if input.type = .real then real (values.map fun n ↦ (Value.integer n).toFloat.toBits)
      else integer values
    | storage => storage

/-- The bits of `Value::asReal`. -/
def realBits : Value → Except Error UInt64
  | .real bits => pure bits
  | input => do pure (← input.asReal).toBits

/-- `Value::asBlob`. -/
def asBlob : Value → Except Error Bytes
  | .blob bytes => pure bytes
  | _ => throw (lit "Value is not a blob")

/-- The entry of a value behind the others. -/
def push (input : Value) : VectorStorage → Except Error VectorStorage
  | null => pure null
  | integer values => do
    pure (integer (values ++ [← if input.isNull then pure 0 else input.asInteger]))
  | real values => do pure (real (values ++ [← if input.isNull then pure 0 else realBits input]))
  | text values => pure (text (values ++ [if input.isNull then [] else input.toString]))
  | boolean values => pure (boolean (values ++ [if input.isNull then false else input.asBoolean]))
  | blob values => do pure (blob (values ++ [← if input.isNull then pure [] else asBlob input]))

end VectorStorage

/-! ### Vectors -/

/-- `NativeEngine::TypedVector`. -/
structure TypedVector where
  storage : VectorStorage := .null
  size : Nat := 0
  nullBitmap : List UInt64 := []

namespace TypedVector

/-- The constructor. -/
def ofType (type : ValueType) : TypedVector :=
  { storage := .filled 0 type }

/-- `TypedVector::type`. -/
def type (vector : TypedVector) : ValueType :=
  vector.storage.type

/-- The bitmap with the bit of a NULL. -/
def markNull (words : List UInt64) (index : Nat) : Except VectorError (List UInt64) :=
  if index / 64 < words.length then pure (words.modify (index / 64) (· ||| Bitmap.mask index))
  else throw .outOfRange

/-- `TypedVector::append`. -/
def append (vector : TypedVector) (input : Value) : Except VectorError TypedVector := do
  let words := Bitmap.extend vector.nullBitmap vector.size
  let nullBitmap ← if input.isNull then markNull words vector.size else pure words
  let storage ← thrown ((vector.storage.admitType vector.size input).push input)
  pure { storage, size := vector.size + 1, nullBitmap }

/-- `TypedVector::isNull`. -/
def isNull (vector : TypedVector) (index : Nat) : Except VectorError Bool :=
  if vector.size ≤ index then throw (.thrown (lit "Vector row out of range"))
  else match Bitmap.test vector.nullBitmap index with
    | some bit => pure bit
    | none => throw .outOfRange

/-- `TypedVector::value`. -/
def value (vector : TypedVector) (index : Nat) : Except VectorError Value := do
  let missing ← vector.isNull index
  if missing || vector.type == .null then pure .null else elementAt vector.storage.elements index

end TypedVector

/-! ### Values in a storage -/

namespace VectorStorage

variable {storage : VectorStorage} {values : List Value} {input : Value}

/-- The storage has these values, apart from NULLs; without a type there are only NULLs. -/
def Holds (storage : VectorStorage) (values : List Value) : Prop :=
  if storage.type = .null then ∀ value ∈ values, value.isNull
  else List.Forall₂ (fun value element ↦ value.isNull = false → element = value) values storage.elements

theorem holds_null : Holds .null values ↔ ∀ value ∈ values, value.isNull :=
  Iff.rfl

theorem holds_typed (htype : storage.type ≠ .null) : storage.Holds values ↔
    List.Forall₂ (fun value element ↦ value.isNull = false → element = value) values storage.elements := by
  rw [Holds, if_neg htype]

/-- One entry more. -/
theorem Holds.snoc {storage' : VectorStorage} {element : Value} (h : storage.Holds values)
    (htype : storage.type ≠ .null) (htype' : storage'.type = storage.type)
    (helements : storage'.elements = storage.elements ++ [element])
    (helement : input.isNull = false → element = input) : storage'.Holds (values ++ [input]) := by
  rw [holds_typed htype] at h
  rw [holds_typed (htype' ▸ htype), helements]
  exact List.rel_append h (.cons helement .nil)

/-- Appending NULL. -/
theorem Holds.push_null (h : storage.Holds values) :
    ∃ storage', (storage.admitType values.length .null).push .null = .ok storage' ∧
      storage'.Holds (values ++ [.null]) ∧ storage'.type = storage.type := by
  have hvacuous (element : Value) : Value.null.isNull = false → element = .null :=
    fun hnull ↦ absurd hnull (by decide)
  cases storage with
  | null =>
    refine ⟨null, rfl, ?_, rfl⟩
    rw [holds_null] at h ⊢
    rw [List.forall_mem_append]
    exact ⟨h, by simp [Value.isNull, Value.type]⟩
  | integer values => exact ⟨_, rfl, h.snoc (by rintro ⟨⟩) rfl List.map_append (hvacuous _), rfl⟩
  | real values => exact ⟨_, rfl, h.snoc (by rintro ⟨⟩) rfl List.map_append (hvacuous _), rfl⟩
  | text values => exact ⟨_, rfl, h.snoc (by rintro ⟨⟩) rfl List.map_append (hvacuous _), rfl⟩
  | boolean values => exact ⟨_, rfl, h.snoc (by rintro ⟨⟩) rfl List.map_append (hvacuous _), rfl⟩
  | blob values => exact ⟨_, rfl, h.snoc (by rintro ⟨⟩) rfl List.map_append (hvacuous _), rfl⟩

@[simp]
theorem type_filled (size : Nat) (type : ValueType) : (filled size type).type = type := by
  cases type <;> rfl

/-- A storage of defaults has NULLs. -/
theorem holds_filled (h : ∀ value ∈ values, value.isNull) (type : ValueType) :
    (filled values.length type).Holds values := by
  have hdefaults (element : Value) : List.Forall₂ (fun value element ↦ value.isNull = false → element = value)
      values (List.replicate values.length element) := by
    clear type
    induction values with
    | nil => exact .nil
    | cons value values ih =>
      obtain ⟨hvalue, hvalues⟩ := List.forall_mem_cons.1 h
      exact .cons (fun hnull ↦ absurd (hnull.symm.trans hvalue) Bool.false_ne_true) (ih hvalues)
  cases type with
  | null => exact h
  | _ =>
    rw [holds_typed (by simp), filled, elements, List.map_replicate]
    exact hdefaults _

/-- Appending a value of the type of the storage. -/
theorem Holds.push_typed (h : storage.Holds values) (hnull : input.isNull = false)
    (htype : input.type = storage.type) :
    ∃ storage', (storage.admitType values.length input).push input = .ok storage' ∧
      storage'.Holds (values ++ [input]) ∧ storage'.type = storage.type := by
  cases input with
  | null => exact absurd hnull nofun
  | integer n =>
    cases storage with
    | integer values => exact ⟨_, rfl, h.snoc nofun rfl List.map_append fun _ ↦ rfl, rfl⟩
    | _ => exact absurd htype nofun
  | real bits =>
    cases storage with
    | real values => exact ⟨_, rfl, h.snoc nofun rfl List.map_append fun _ ↦ rfl, rfl⟩
    | _ => exact absurd htype nofun
  | text bytes =>
    cases storage with
    | text values => exact ⟨_, rfl, h.snoc nofun rfl List.map_append fun _ ↦ rfl, rfl⟩
    | _ => exact absurd htype nofun
  | boolean b =>
    cases storage with
    | boolean values => exact ⟨_, rfl, h.snoc nofun rfl List.map_append fun _ ↦ rfl, rfl⟩
    | _ => exact absurd htype nofun
  | blob bytes =>
    cases storage with
    | blob values => exact ⟨_, rfl, h.snoc nofun rfl List.map_append fun _ ↦ rfl, rfl⟩
    | _ => exact absurd htype nofun

/-- Appending the first value that is not NULL to a storage without a type. -/
theorem Holds.push_first (h : Holds .null values) (hnull : input.isNull = false) :
    ∃ storage', (admitType values.length input .null).push input = .ok storage' ∧
      storage'.Holds (values ++ [input]) ∧ storage'.type = input.type := by
  have hfilled := holds_filled h input.type
  have htype : input.type = (filled values.length input.type).type := (type_filled _ _).symm
  have hadmitted : admitType values.length input .null =
      admitType values.length input (filled values.length input.type) := by
    cases input with
    | null => exact absurd hnull nofun
    | _ => rfl
  rw [hadmitted]
  obtain ⟨storage', hpush, hholds, htype'⟩ := hfilled.push_typed hnull htype
  exact ⟨storage', hpush, hholds, htype'.trans htype.symm⟩

end VectorStorage

/-! ### Values in a vector -/

namespace TypedVector

variable {vector : TypedVector} {values : List Value} {input : Value} {type : ValueType} {index : Nat}

/-- The vector has these values. -/
structure Holds (vector : TypedVector) (values : List Value) : Prop where
  size_eq : vector.size = values.length
  nulls : Bitmap.Holds vector.nullBitmap (values.map Value.isNull)
  storage : vector.storage.Holds values

/-- An empty vector holds no values. -/
theorem holds_ofType (type : ValueType) : (ofType type).Holds [] := by
  refine ⟨rfl, Bitmap.holds_nil, ?_⟩
  cases type with
  | null => exact List.forall_mem_nil _
  | _ => exact .nil

/-- A value that the vector takes without a change of its type. -/
def Fits (vector : TypedVector) (input : Value) : Prop :=
  input.isNull ∨ vector.type = .null ∨ input.type = vector.type

/-- One value more. -/
theorem Holds.append (h : vector.Holds values) (hfits : vector.Fits input) :
    ∃ vector', vector.append input = .ok vector' ∧ vector'.Holds (values ++ [input]) ∧
      (vector'.type = vector.type ∨ input.isNull = false ∧ vector'.type = input.type) := by
  obtain ⟨hsize, hnulls, hstorage⟩ := h
  have hlength : values.length = (values.map Value.isNull).length := by rw [List.length_map]
  rw [TypedVector.append, hsize]
  by_cases hnull : input.isNull
  · obtain rfl := Value.isNull_iff.1 hnull
    obtain ⟨storage', hpush, hholds, htype⟩ := hstorage.push_null
    have hmark : markNull (Bitmap.extend vector.nullBitmap values.length) values.length =
        .ok ((Bitmap.extend vector.nullBitmap values.length).modify (values.length / 64)
          (· ||| Bitmap.mask values.length)) := by
      rw [markNull, if_pos]
      · rfl
      · rw [hlength, hnulls.extend.1]
        omega
    refine ⟨⟨storage', values.length + 1, (Bitmap.extend vector.nullBitmap values.length).modify
      (values.length / 64) (· ||| Bitmap.mask values.length)⟩, ?_, ⟨?_, ?_, hholds⟩, .inl htype⟩
    · rw [hpush, if_pos hnull, hmark]
      rfl
    · rw [List.length_append, List.length_singleton]
    · rw [List.map_append, hlength]
      exact hnulls.snoc_true
  · rw [Bool.not_eq_true] at hnull
    -- The first value that is not NULL fixes the type of the storage, and later ones have that type.
    obtain ⟨storage', hpush, hholds, htype⟩ : ∃ storage',
        (vector.storage.admitType values.length input).push input = .ok storage' ∧
          storage'.Holds (values ++ [input]) ∧ (storage'.type = vector.storage.type ∨ storage'.type = input.type) := by
      rcases hfits with hfits | hfits | hfits
      · rw [hnull] at hfits
        cases hfits
      · have hnone : vector.storage = .null := by
          rw [type] at hfits
          generalize vector.storage = storage at hfits
          cases storage with
          | null => rfl
          | _ => exact absurd hfits nofun
        rw [hnone] at hstorage ⊢
        obtain ⟨storage', hpush, hholds, htype⟩ := hstorage.push_first hnull
        exact ⟨storage', hpush, hholds, .inr htype⟩
      · obtain ⟨storage', hpush, hholds, htype⟩ := hstorage.push_typed hnull hfits
        exact ⟨storage', hpush, hholds, .inl htype⟩
    refine ⟨⟨storage', values.length + 1, Bitmap.extend vector.nullBitmap values.length⟩, ?_, ⟨?_, ?_, hholds⟩,
      htype.imp_right fun h ↦ ⟨hnull, h⟩⟩
    · rw [hpush, hnull, if_neg Bool.false_ne_true]
      rfl
    · rw [List.length_append, List.length_singleton]
    · rw [List.map_append, List.map_singleton, hnull, hlength]
      exact hnulls.snoc_false

/-! ### Reading -/

/-- The bitmap says which values are NULL. -/
theorem Holds.isNull (h : vector.Holds values) {value : Value} (hvalue : values[index]? = some value) :
    vector.isNull index = .ok value.isNull := by
  obtain ⟨hlt, hget⟩ := List.getElem?_eq_some_iff.1 hvalue
  have htest := h.nulls.test_of_lt (i := index) (by rwa [List.length_map])
  rw [TypedVector.isNull, h.size_eq, if_neg (Nat.not_le.2 hlt), htest]
  have hbit : (values.map Value.isNull).getD index false = value.isNull := by
    rw [List.getD_eq_getElem?_getD, List.getElem?_map, hvalue]
    rfl
  rw [hbit]
  rfl

/-- The entry of a value that is not NULL. -/
theorem Holds.element (h : vector.Holds values) {value : Value} (hvalue : values[index]? = some value)
    (hnull : value.isNull = false) : vector.type = value.type ∧ vector.storage.elements[index]? = some value := by
  have hstorage := h.storage
  rw [VectorStorage.Holds] at hstorage
  split at hstorage
  · have hall := hstorage value (List.mem_of_getElem? hvalue)
    rw [hnull] at hall
    cases hall
  · obtain ⟨hlt, hget⟩ := List.getElem?_eq_some_iff.1 hvalue
    have hlt' : index < vector.storage.elements.length := by rwa [← hstorage.length_eq]
    have helement := List.getElem?_eq_getElem hlt'
    have heq := List.Forall₂.getElem? hstorage hvalue helement hnull
    rw [heq] at helement
    refine ⟨?_, helement⟩
    rw [type]
    generalize vector.storage = storage at helement
    cases storage with
    | null => cases helement
    | _ =>
      rw [VectorStorage.elements, List.getElem?_map, Option.map_eq_some_iff] at helement
      obtain ⟨_, -, rfl⟩ := helement
      rfl

/-- A vector returns the values that it holds. -/
theorem Holds.value (h : vector.Holds values) {value : Value} (hvalue : values[index]? = some value) :
    vector.value index = .ok value := by
  rw [TypedVector.value, h.isNull hvalue, Except.ok_bind]
  by_cases hnull : value.isNull
  · rw [hnull, Value.isNull_iff.1 hnull]
    rfl
  · rw [Bool.not_eq_true] at hnull
    obtain ⟨htype, helement⟩ := h.element hvalue hnull
    have htyped : (vector.type == .null) = false := by
      rw [htype]
      exact hnull
    rw [hnull, htyped, Bool.or_false, if_neg Bool.false_ne_true, elementAt_of_getElem? helement]

end TypedVector

end SkibidiQL
