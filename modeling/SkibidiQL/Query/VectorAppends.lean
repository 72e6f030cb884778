import SkibidiQL.Query.TypedVector

/-!
# Values appended one after the other

A vector that takes values of one type returns them. A vector of integers becomes one of reals at the first real;
its integers are then converted, and so is every integer that follows.
-/

namespace SkibidiQL

namespace Value

/-- The value as a real, when it is an integer. -/
def promoted : Value → Value
  | integer n => ofFloat (integer n).toFloat
  | value => value

theorem promoted_of_isNull {value : Value} (h : value.isNull) : value.promoted = value := by
  rw [isNull_iff.1 h]
  rfl

theorem promoted_of_real {value : Value} (h : value.type = .real) : value.promoted = value := by
  cases value with
  | real bits => rfl
  | _ => cases h

theorem isNull_promoted (value : Value) : value.promoted.isNull = value.isNull := by
  cases value <;> rfl

/-- An integer, a real or NULL. -/
def IsNumberOrNull (value : Value) : Prop :=
  value.isNull ∨ value.type = .integer ∨ value.type = .real

end Value

namespace TypedVector

variable {vector vector' : TypedVector} {values : List Value} {input : Value} {type : ValueType}

/-- The vector after these values. -/
def appendAll (vector : TypedVector) (values : List Value) : Except VectorError TypedVector :=
  values.foldlM append vector

theorem appendAll_concat : vector.appendAll (values ++ [input]) = vector.appendAll values >>= (·.append input) := by
  rw [appendAll, List.foldlM_append]
  simp [appendAll]

/-! ### Values of one type -/

/-- The type of a vector that was given values of type `T`. -/
def OfType (T : ValueType) (vector : TypedVector) : Prop :=
  vector.type = .null ∨ vector.type = T

/-- Values of the type of the vector are held as they are. -/
theorem appendAll_holds {T : ValueType} (htype : (ofType type).OfType T)
    (hvalues : ∀ value ∈ values, value.isNull ∨ value.type = T) :
    ∃ vector, (ofType type).appendAll values = .ok vector ∧ vector.Holds values ∧ vector.OfType T := by
  induction values using List.reverseRecOn with
  | nil => exact ⟨_, rfl, holds_ofType type, htype⟩
  | append_singleton values input ih =>
    rw [List.forall_mem_append, List.forall_mem_singleton] at hvalues
    obtain ⟨vector, hrun, hholds, hof⟩ := ih hvalues.1
    have hfits : vector.Fits input := by
      rcases hvalues.2 with hnull | hinput
      · exact .inl hnull
      · exact .inr (hof.imp_right fun h ↦ hinput.trans h.symm)
    obtain ⟨vector', happend, hholds', htype'⟩ := hholds.append hfits
    refine ⟨vector', by rw [appendAll_concat, hrun, Except.ok_bind, happend], hholds', ?_⟩
    rcases htype' with heq | ⟨hnull, heq⟩
    · rwa [OfType, heq]
    · right
      rw [heq]
      exact hvalues.2.resolve_left (by rw [hnull]; exact Bool.false_ne_true)

/-! ### Integers and reals -/

/-- The value as the vector returns it: promoted in a vector of reals. -/
def shown (vector : TypedVector) (value : Value) : Value :=
  if vector.type = .real then value.promoted else value

theorem shown_of_isNull (vector : TypedVector) {value : Value} (h : value.isNull) : vector.shown value = value := by
  rw [shown, Value.promoted_of_isNull h, ite_self]

theorem shown_congr (h : vector.type = vector'.type) : vector.shown = vector'.shown := by
  funext value
  rw [shown, shown, h]

/-- The vector has these numbers, and is one of reals once a real was appended to it. -/
structure Promotes (vector : TypedVector) (type : ValueType) (values : List Value) : Prop where
  holds : vector.Holds (values.map vector.shown)
  numbers : vector.type = .null ∨ vector.type = .integer ∨ vector.type = .real
  real_iff : vector.type = .real ↔ type = .real ∨ ∃ value ∈ values, value.type = .real

/-- The type after one value more. -/
theorem Holds.type_snoc (h : vector'.Holds (values ++ [input])) (hnull : input.isNull = false) :
    vector'.type = input.type :=
  (h.element (show (values ++ [input])[values.length]? = some input by simp) hnull).1

/-- In a vector of reals a number is the real that it is promoted to. -/
theorem append_promoted (htype : vector.type = .real) (hinput : input.IsNumberOrNull) :
    vector.append input = vector.append input.promoted := by
  obtain ⟨storage, size, nullBitmap⟩ := vector
  cases storage with
  | real bits =>
    cases input with
    | null | integer _ | real _ => rfl
    | _ => rcases hinput with h | h | h <;> cases h
  | _ => cases htype

/-- The vector after its integers are converted. -/
def converted (vector : TypedVector) (numbers : List Int64) : TypedVector :=
  { vector with storage := .real (numbers.map fun n ↦ (Value.integer n).toFloat.toBits) }

/-- A double converts a vector of integers before it is appended. -/
theorem append_converted {numbers : List Int64} (hstorage : vector.storage = .integer numbers) (bits : UInt64) :
    vector.append (.real bits) = (vector.converted numbers).append (.real bits) := by
  obtain ⟨storage, size, nullBitmap⟩ := vector
  obtain rfl : storage = .integer numbers := hstorage
  rfl

/-- A converted vector holds the promoted values. -/
theorem Holds.converted {numbers : List Int64} (h : vector.Holds values)
    (hstorage : vector.storage = .integer numbers) : (vector.converted numbers).Holds (values.map Value.promoted) := by
  obtain ⟨hsize, hnulls, hvalues⟩ := h
  refine ⟨by rw [List.length_map]; exact hsize, ?_, ?_⟩
  · rw [List.map_map, show Value.isNull ∘ Value.promoted = Value.isNull from funext Value.isNull_promoted]
    exact hnulls
  · have hinteger : (VectorStorage.integer numbers).type ≠ .null := nofun
    have hreal : (VectorStorage.real (numbers.map fun n ↦ (Value.integer n).toFloat.toBits)).type ≠ .null := nofun
    rw [hstorage, VectorStorage.holds_typed hinteger] at hvalues
    have helements : VectorStorage.elements (.real (numbers.map fun n ↦ (Value.integer n).toFloat.toBits)) =
        (VectorStorage.elements (.integer numbers)).map Value.promoted := by
      simp [VectorStorage.elements, Value.promoted, Value.ofFloat]
    rw [TypedVector.converted, VectorStorage.holds_typed hreal, helements, List.forall₂_map_left_iff,
      List.forall₂_map_right_iff]
    refine hvalues.imp fun value element helement hnull ↦ ?_
    rw [Value.isNull_promoted] at hnull
    rw [helement hnull]

/-- An empty vector holds no values. -/
theorem promotes_ofType (htype : type = .integer ∨ type = .real ∨ type = .null) :
    (ofType type).Promotes type [] := by
  refine ⟨holds_ofType type, ?_, ?_⟩
  · rcases htype with rfl | rfl | rfl <;> decide
  · have hsame : (ofType type).type = type := VectorStorage.type_filled 0 type
    simp [hsame]

/-- There is a double among the values with one more when there was one or it is one. -/
theorem exists_real_concat : (∃ value ∈ values ++ [input], value.type = .real) ↔
    (∃ value ∈ values, value.type = .real) ∨ input.type = .real := by
  simp [or_and_right, exists_or]

/-- The vector takes the value: it has one entry more, and is one of reals if it was or the value is real. -/
def Takes (vector : TypedVector) (values : List Value) (input : Value) : Prop :=
  ∃ vector', vector.append input = .ok vector' ∧ vector'.Holds ((values ++ [input]).map vector'.shown) ∧
    (vector'.type = .null ∨ vector'.type = .integer ∨ vector'.type = .real) ∧
    (vector'.type = .real ↔ vector.type = .real ∨ input.type = .real)

/-- A vector that takes a value promotes all of them. -/
theorem Takes.promotes (h : vector.Takes values input) (hpromotes : vector.Promotes type values) :
    ∃ vector', vector.append input = .ok vector' ∧ vector'.Promotes type (values ++ [input]) := by
  obtain ⟨vector', happend, hholds, hnumbers, hreal⟩ := h
  refine ⟨vector', happend, hholds, hnumbers, ?_⟩
  rw [hreal, hpromotes.real_iff, exists_real_concat, or_assoc]

/-- A vector of numbers takes NULL. -/
theorem takes_null (hholds : vector.Holds (values.map vector.shown))
    (hnumbers : vector.type = .null ∨ vector.type = .integer ∨ vector.type = .real) :
    vector.Takes values .null := by
  obtain ⟨vector', happend, hholds', htype⟩ := hholds.append (.inl (rfl : Value.null.isNull = true))
  have htype : vector'.type = vector.type := htype.resolve_right fun h ↦ absurd h.1 (by decide)
  refine ⟨vector', happend, ?_, htype ▸ hnumbers, ?_⟩
  · rw [List.map_append, List.map_singleton, shown_of_isNull _ rfl, shown_congr htype]
    exact hholds'
  · rw [htype, or_iff_left (by decide)]

/-- The first value that is not NULL. -/
theorem takes_first (hholds : vector.Holds (values.map vector.shown)) (htype : vector.type = .null)
    (hnull : input.isNull = false) (hnumber : input.type = .integer ∨ input.type = .real) :
    vector.Takes values input := by
  obtain ⟨vector', happend, hholds', -⟩ := hholds.append (.inr (.inl htype))
  have htype' := hholds'.type_snoc hnull
  have hnulls : ∀ value ∈ values, value.isNull := by
    have hstorage := hholds.storage
    rw [VectorStorage.Holds, if_pos (show vector.storage.type = .null from htype), List.forall_mem_map] at hstorage
    intro value hvalue
    have hshown := hstorage value hvalue
    rwa [shown, if_neg (by rw [htype]; decide)] at hshown
  have hinput : vector'.shown input = input := by
    rcases hnumber with hinteger | hreal
    · rw [shown, if_neg (by rw [htype', hinteger]; decide)]
    · rw [shown, Value.promoted_of_real hreal, ite_self]
  have hvalues : values.map vector'.shown = values.map vector.shown := List.map_congr_left fun value hvalue ↦ by
    rw [shown_of_isNull _ (hnulls value hvalue), shown_of_isNull _ (hnulls value hvalue)]
  refine ⟨vector', happend, ?_, .inr (htype' ▸ hnumber), ?_⟩
  · rw [List.map_append, List.map_singleton, hinput, hvalues]
    exact hholds'
  · rw [htype', htype]
    exact (or_iff_right (by decide)).symm

/-- Outside a vector of reals the values are returned as they are. -/
theorem map_shown (h : vector.type ≠ .real) (values : List Value) : values.map vector.shown = values := by
  refine (List.map_congr_left fun value _ ↦ ?_).trans (List.map_id values)
  rw [shown, if_neg h]
  rfl

/-- A vector of integers takes an integer. -/
theorem takes_integer (hholds : vector.Holds (values.map vector.shown)) (htype : vector.type = .integer)
    (hnull : input.isNull = false) (hinteger : input.type = .integer) : vector.Takes values input := by
  rw [map_shown (by rw [htype]; decide)] at hholds
  obtain ⟨vector', happend, hholds', -⟩ := hholds.append (.inr (.inr (hinteger.trans htype.symm)))
  have htype' := (hholds'.type_snoc hnull).trans hinteger
  refine ⟨vector', happend, ?_, .inr (.inl htype'), ?_⟩
  · rwa [map_shown (by rw [htype']; decide)]
  · rw [htype', htype, hinteger, or_self]

/-- The first real converts the integers. -/
theorem takes_first_real (hholds : vector.Holds (values.map vector.shown)) (htype : vector.type = .integer)
    (bits : UInt64) : vector.Takes values (.real bits) := by
  rw [map_shown (by rw [htype]; decide)] at hholds
  obtain ⟨numbers, hstorage⟩ : ∃ numbers, vector.storage = .integer numbers := by
    obtain ⟨storage, size, nullBitmap⟩ := vector
    cases storage with
    | integer numbers => exact ⟨numbers, rfl⟩
    | _ => cases htype
  have hfits : (vector.converted numbers).Fits (.real bits) := .inr (.inr rfl)
  obtain ⟨vector', happend, hholds', -⟩ := (hholds.converted hstorage).append hfits
  have htype' : vector'.type = .real := hholds'.type_snoc rfl
  have hshown : vector'.shown = Value.promoted := by
    funext value
    rw [shown, if_pos htype']
  refine ⟨vector', (append_converted hstorage bits).trans happend, ?_, .inr (.inr htype'), ?_⟩
  · rw [List.map_append, hshown]
    exact hholds'
  · exact iff_of_true htype' (.inr rfl)

/-- A vector of reals promotes what it takes. -/
theorem takes_promoted (hholds : vector.Holds (values.map vector.shown)) (htype : vector.type = .real)
    (hnull : input.isNull = false) (hnumber : input.type = .integer ∨ input.type = .real) :
    vector.Takes values input := by
  have hpromoted : input.promoted.type = .real := by
    cases input with
    | integer n | real bits => rfl
    | _ => rcases hnumber with h | h <;> cases h
  obtain ⟨vector', happend, hholds', -⟩ := hholds.append (.inr (.inr (hpromoted.trans htype.symm)))
  have htype' := (hholds'.type_snoc (by rw [Value.isNull_promoted, hnull])).trans hpromoted
  refine ⟨vector', (append_promoted htype (.inr hnumber)).trans happend, ?_, .inr (.inr htype'), ?_⟩
  · rw [List.map_append, ← shown_congr (htype.trans htype'.symm), List.map_singleton, shown, if_pos htype]
    exact hholds'
  · exact iff_of_true htype' (.inl htype)

/-- One number more. -/
theorem Promotes.append (h : vector.Promotes type values) (hinput : input.IsNumberOrNull) :
    ∃ vector', vector.append input = .ok vector' ∧ vector'.Promotes type (values ++ [input]) := by
  suffices htakes : vector.Takes values input from htakes.promotes h
  cases hnull : input.isNull
  case true =>
    rw [Value.isNull_iff.1 hnull]
    exact takes_null h.holds h.numbers
  case false =>
    have hnumber : input.type = .integer ∨ input.type = .real :=
      hinput.resolve_left (by rw [hnull]; exact Bool.false_ne_true)
    rcases h.numbers with htype | htype | htype
    · exact takes_first h.holds htype hnull hnumber
    · rcases hnumber with hinteger | hreal
      · exact takes_integer h.holds htype hnull hinteger
      · obtain ⟨bits, rfl⟩ : ∃ bits, input = .real bits := by
          cases input with
          | real bits => exact ⟨bits, rfl⟩
          | _ => cases hreal
        exact takes_first_real h.holds htype bits
    · exact takes_promoted h.holds htype hnull hnumber

/-- A vector of numbers takes all numbers and NULLs, promoted once a double has come. -/
theorem appendAll_promotes (htype : type = .integer ∨ type = .real ∨ type = .null)
    (hvalues : ∀ value ∈ values, value.IsNumberOrNull) :
    ∃ vector, (ofType type).appendAll values = .ok vector ∧ vector.Promotes type values := by
  induction values using List.reverseRecOn with
  | nil => exact ⟨_, rfl, promotes_ofType htype⟩
  | append_singleton values input ih =>
    rw [List.forall_mem_append, List.forall_mem_singleton] at hvalues
    obtain ⟨vector, hrun, hpromotes⟩ := ih hvalues.1
    obtain ⟨vector', happend, hpromotes'⟩ := hpromotes.append hvalues.2
    exact ⟨vector', by rw [appendAll_concat, hrun, Except.ok_bind, happend], hpromotes'⟩

/-- What is appended to a vector is what it returns: values of one type unchanged, with their NULLs, and among
integers and reals the integers as reals exactly when the vector is one of reals. -/
theorem appendAll_represents (type : ValueType) (values : List Value) :
    (∀ T, type = T ∨ type = .null → (∀ value ∈ values, value.isNull ∨ value.type = T) →
      ∃ vector, (ofType type).appendAll values = .ok vector ∧
        ∀ (index : Nat) (value : Value), values[index]? = some value →
          vector.value index = .ok value ∧ vector.isNull index = .ok value.isNull) ∧
    (type = .integer ∨ type = .real ∨ type = .null → (∀ value ∈ values, value.IsNumberOrNull) →
      ∃ vector, (ofType type).appendAll values = .ok vector ∧
        (vector.type = .real ↔ type = .real ∨ ∃ value ∈ values, value.type = .real) ∧
        ∀ (index : Nat) (value : Value), values[index]? = some value →
          vector.value index = .ok (if vector.type = .real then value.promoted else value) ∧
            vector.isNull index = .ok value.isNull) := by
  constructor
  · intro T htype hvalues
    have hof : (ofType type).OfType T := by
      rw [OfType, show (ofType type).type = type from VectorStorage.type_filled 0 type]
      exact htype.symm
    obtain ⟨vector, hrun, hholds, -⟩ := appendAll_holds hof hvalues
    exact ⟨vector, hrun, fun index value hvalue ↦ ⟨hholds.value hvalue, hholds.isNull hvalue⟩⟩
  · intro htype hvalues
    obtain ⟨vector, hrun, hpromotes⟩ := appendAll_promotes htype hvalues
    refine ⟨vector, hrun, hpromotes.real_iff, fun index value hvalue ↦ ?_⟩
    have hshown : (values.map vector.shown)[index]? = some (vector.shown value) := by
      rw [List.getElem?_map, hvalue]
      rfl
    refine ⟨hpromotes.holds.value hshown, ?_⟩
    rw [hpromotes.holds.isNull hshown, shown]
    split
    · rw [Value.isNull_promoted]
    · rfl

/-- The values 3, NULL and 2.5 in a vector of integers. -/
theorem appendAll_represents_mixed : ∃ vector,
    (ofType .integer).appendAll [.integer 3, .null, .real 0x4004000000000000] = .ok vector ∧
      vector.type = .real ∧ vector.value 0 = .ok (.ofFloat (Value.integer 3).toFloat) ∧
        vector.value 1 = .ok .null ∧ vector.isNull 1 = .ok true := by
  obtain ⟨vector, hrun, htype, hvalues⟩ :=
    (appendAll_represents .integer [.integer 3, .null, .real 0x4004000000000000]).2 (.inl rfl) (by
      simp [Value.IsNumberOrNull, Value.isNull, Value.type])
  have hreal : vector.type = .real := htype.2 (.inr ⟨.real 0x4004000000000000, by simp, rfl⟩)
  obtain ⟨hfirst, -⟩ := hvalues 0 _ rfl
  obtain ⟨hsecond, hnull⟩ := hvalues 1 _ rfl
  rw [hreal] at hfirst hsecond
  exact ⟨vector, hrun, hreal, hfirst, hsecond, hnull⟩

end TypedVector

end SkibidiQL
