import SkibidiQL.Query.TableColumns
import SkibidiQL.Query.Vectorized

/-!
# Evaluation of vectors

`evalVector` computes, entry by entry, what `evalEntry` computes on each row. Values of an expression have one
type on all rows, so no vector ever changes its type. `evalEntry` differs from `eval` on NaNs alone: it decides
the comparison of a column with a literal by `Value::compare`.
-/

namespace SkibidiQL

open Bytes

variable {batch : VectorBatch} {rows : List EvalRow} {row : EvalRow} {expression : Expr} {op : BinaryOperator}
  {left right value value' scalar : Value} {type type' : ValueType} {column : ColumnRef} {literal : Literal}

/-! ### Entries -/

/-- An entry of the comparison of a column with a literal. -/
def compareValue (op : BinaryOperator) (columnOnLeft : Bool) (value scalar : Value) : Value :=
  if value.isNull || scalar.isNull then .null
  else
    let order := value.compare scalar
    .boolean (op.holds (if columnOnLeft then order else order.swap))

/-- What `evalVector` computes on one row. -/
def evalEntry (row : EvalRow) : Expr → Except Error Value
  | .binary op left right _ =>
    match columnComparison op left right with
    | some (column, literal, columnOnLeft) => do
      pure (compareValue op columnOnLeft (← resolveColumn column row) (literalValue literal))
    | none => do applyBinary op (← evalEntry row left) (← evalEntry row right)
  | .unary op operand _ => do applyUnary op (← evalEntry row operand)
  | expression => eval expression row

/-- A vector that holds what these entries are, or an exception when one of them fails. -/
def EntryRepresents (vector : Except VectorError TypedVector) (entries : Except Error (List Value)) : Prop :=
  (∃ v values, vector = .ok v ∧ entries = .ok values ∧ v.Holds values) ∨
    (∃ message, vector = .error (.thrown message)) ∧ entries.Fails

/-! ### The type of an expression -/

/-- A value that is NULL or has the type. -/
def Value.OfType (value : Value) (type : ValueType) : Prop :=
  value.isNull ∨ value.type = type

/-- The type of the values that an operator returns. -/
def binaryType (op : BinaryOperator) (left right : ValueType) : ValueType :=
  match op with
  | .and | .or | .eq | .ne | .lt | .gt | .le | .ge => .boolean
  | .concat => .text
  | .add | .sub | .mul | .div => if left = .integer ∧ right = .integer then .integer else .real
  | .other _ => .null

/-- The type of a sum, difference or product. -/
theorem applyArithmetic_type (onIntegers : Int64 → Int64 → Int64) (onReals : Float → Float → Float)
    (left right : Value) : (applyArithmetic onIntegers onReals left right).type =
      if left.type = .integer ∧ right.type = .integer then .integer else .real := by
  cases left <;> cases right <;> rfl

/-- The type of a numeric operation. -/
theorem applyNumeric_type (h : applyNumeric op left right = .ok value) :
    value.OfType (binaryType op left.type right.type) := by
  cases op with
  | add | sub | mul =>
    obtain rfl := Except.ok.inj h
    exact .inr (applyArithmetic_type _ _ _ _)
  | div =>
    rw [applyNumeric] at h
    split at h
    · obtain rfl := Except.ok.inj h
      exact .inl rfl
    · obtain rfl := Except.ok.inj h
      exact .inr (applyArithmetic_type _ _ _ _)
  | _ => cases h

/-- A binary operation has the type that its vector is given. -/
theorem applyBinary_type (hleft : left.OfType type) (hright : right.OfType type')
    (h : applyBinary op left right = .ok value) : value.OfType (binaryType op type type') := by
  -- A NULL operand gives NULL, except that AND and OR have a truth value all the same.
  by_cases hnull : left.isNull || right.isNull
  · rw [applyBinary.eq_def] at h
    split at h
    · obtain rfl := Except.ok.inj h
      exact .inr rfl
    · obtain rfl := Except.ok.inj h
      exact .inr rfl
    · rw [if_pos hnull] at h
      obtain rfl := Except.ok.inj h
      exact .inl rfl
  · obtain ⟨hleftNull, hrightNull⟩ : ¬left.isNull ∧ ¬right.isNull := by simpa using hnull
    obtain rfl := hleft.resolve_left hleftNull
    obtain rfl := hright.resolve_left hrightNull
    rw [Bool.not_eq_true] at hnull
    have harithmetic : ∀ op, (if left.isNumeric && right.isNumeric then applyNumeric op left right
        else throw (lit "Arithmetic requires numeric operands")) = .ok value →
          value.OfType (binaryType op left.type right.type) := by
      intro op h
      split at h
      · exact applyNumeric_type h
      · cases h
    cases op with
    | and | or =>
      obtain rfl := Except.ok.inj h
      exact .inr rfl
    | eq | ne | lt | gt | le | ge | concat =>
      simp only [applyBinary, hnull, Bool.false_eq_true, if_false] at h
      obtain rfl := Except.ok.inj h
      exact .inr rfl
    | add | sub | mul | div | other =>
      simp only [applyBinary, hnull, Bool.false_eq_true, if_false] at h
      exact harithmetic _ h

/-- The type of the values that a unary operator returns. -/
def unaryType (op : UnaryOperator) (type : ValueType) : ValueType :=
  match op with
  | .not => .boolean
  | .neg => if type = .integer then .integer else .real
  | .other _ => .null

/-- A unary operation has the type that its vector is given. -/
theorem applyUnary_type {op : UnaryOperator} (hvalue : value.OfType type)
    (h : applyUnary op value = .ok value') : value'.OfType (unaryType op type) := by
  rw [applyUnary.eq_def] at h
  split at h
  · obtain rfl := Except.ok.inj h
    exact .inr rfl
  · split at h
    · obtain rfl := Except.ok.inj h
      exact .inl rfl
    · rename_i hnull
      obtain rfl := hvalue.resolve_left hnull
      split at h
      · obtain rfl := Except.ok.inj h
        exact .inr rfl
      · rename_i hinteger
        split at h
        · obtain rfl := Except.ok.inj h
          cases value with
          | integer n => exact (hinteger n rfl).elim
          | _ => exact .inr rfl
        · cases h
      · cases h
      · cases h

/-- A comparison is Boolean. -/
theorem compareValue_type (op : BinaryOperator) (columnOnLeft : Bool) (value scalar : Value) :
    (compareValue op columnOnLeft value scalar).OfType .boolean := by
  rw [compareValue]
  split
  · exact .inl rfl
  · exact .inr rfl

/-! ### Columns of a batch -/

/-- The batch has a typed vector of the values of a column on these rows. -/
def VectorBatch.Has (batch : VectorBatch) (rows : List EvalRow) (column : ColumnRef) : Prop :=
  ∃ index vector values, resolveVectorColumn column batch = .ok index ∧ batch.values[index]? = some vector ∧
    vector.Holds values ∧ vector.type ≠ .null ∧ rows.mapM (resolveColumn column) = .ok values

/-- All columns under the operators of the expression. -/
def Expr.ForallColumns (p : ColumnRef → Prop) : Expr → Prop
  | .column column => p column
  | .binary _ left right _ => left.ForallColumns p ∧ right.ForallColumns p
  | .unary _ operand _ => operand.ForallColumns p
  | _ => True

/-- The values of an expression have one type on all rows. -/
theorem exists_entryType (h : expression.ForallColumns (batch.Has rows)) :
    ∃ type, ∀ row ∈ rows, ∀ value, evalEntry row expression = .ok value → value.OfType type := by
  -- A column has the type of its vector, whatever the rows; NULL has every type.
  induction expression using Expr.operatorInduction with
  | literal literal =>
    refine ⟨(literalValue literal).type, fun row _ value hvalue ↦ .inr ?_⟩
    rw [← Except.ok.inj hvalue]
  | column column =>
    obtain ⟨index, vector, values, -, -, hholds, -, hvalues⟩ := h
    refine ⟨vector.type, fun row hrow value hvalue ↦ ?_⟩
    by_cases hnull : value.isNull
    · exact .inl hnull
    · obtain ⟨i, hi⟩ := List.getElem?_of_mem hrow
      obtain ⟨stored, hstored⟩ : ∃ stored, values[i]? = some stored := by
        refine ⟨_, List.getElem?_eq_getElem ?_⟩
        rw [← (List.mapM_eq_ok_iff.1 hvalues).length_eq]
        exact (List.getElem?_eq_some_iff.1 hi).1
      have hsame := List.Forall₂.getElem? (List.mapM_eq_ok_iff.1 hvalues) hi hstored
      obtain rfl := Except.ok.inj (hvalue.symm.trans hsame)
      rw [Bool.not_eq_true] at hnull
      exact .inr (hholds.element hstored hnull).1.symm
  | binary op left right alias' ihleft ihright =>
    obtain ⟨hleft, hright⟩ := h
    obtain ⟨typeLeft, htypeLeft⟩ := ihleft hleft
    obtain ⟨typeRight, htypeRight⟩ := ihright hright
    cases hcomparison : columnComparison op left right with
    | some comparison =>
      refine ⟨.boolean, fun row _ value hvalue ↦ ?_⟩
      simp only [evalEntry, hcomparison] at hvalue
      obtain ⟨field, -, hvalue⟩ := Except.bind_eq_ok.1 hvalue
      rw [← Except.ok.inj hvalue]
      exact compareValue_type _ _ _ _
    | none =>
      refine ⟨binaryType op typeLeft typeRight, fun row hrow value hvalue ↦ ?_⟩
      simp only [evalEntry, hcomparison] at hvalue
      obtain ⟨l, hl, hvalue⟩ := Except.bind_eq_ok.1 hvalue
      obtain ⟨r, hr, hvalue⟩ := Except.bind_eq_ok.1 hvalue
      exact applyBinary_type (htypeLeft row hrow l hl) (htypeRight row hrow r hr) hvalue
  | unary op operand alias' ih =>
    obtain ⟨type, htype⟩ := ih h
    refine ⟨unaryType op type, fun row hrow value hvalue ↦ ?_⟩
    obtain ⟨v, hv, hvalue⟩ := Except.bind_eq_ok.1 hvalue
    exact applyUnary_type (htype row hrow v hv) hvalue
  | function name args distinct alias' =>
    refine ⟨.null, fun row _ value hvalue ↦ ?_⟩
    rw [evalEntry, eval] at hvalue
    · split at hvalue <;> cases hvalue
    · simp
    · simp
  | _ => exact ⟨.null, fun row _ value hvalue ↦ by cases hvalue⟩

/-! ### Filling a vector -/

/-- Entries that fit are appended, until one fails. -/
theorem foldlM_append {entry : Nat → Except VectorError Value} {f : Nat → Except Error Value}
    {indices : List Nat} (hentry : ∀ i ∈ indices, entry i = thrown (f i))
    (htype : ∀ i ∈ indices, ∀ value, f i = .ok value → value.OfType type)
    {vector : TypedVector} {values : List Value} (hvector : vector.Holds values)
    (hfits : vector.type = .null ∨ vector.type = type) :
    EntryRepresents (indices.foldlM (fun result i ↦ do result.append (← entry i)) vector)
      (indices.mapM f >>= fun values' ↦ .ok (values ++ values')) := by
  induction indices generalizing vector values with
  | nil => exact .inl ⟨vector, values, rfl, by simp, hvector⟩
  | cons i indices ih =>
    obtain ⟨hhead, htail⟩ := List.forall_mem_cons.1 hentry
    obtain ⟨htypeHead, htypeTail⟩ := List.forall_mem_cons.1 htype
    rw [List.foldlM_cons, hhead, List.mapM_cons]
    rcases hf : f i with message | value
    · exact .inr ⟨⟨message, rfl⟩, message, rfl⟩
    · have hvalue := htypeHead value hf
      have hfit : vector.Fits value := by
        rcases hvalue with hnull | rfl
        · exact .inl hnull
        · exact .inr (hfits.imp_right Eq.symm)
      obtain ⟨vector', happend, hholds, htype'⟩ := hvector.append hfit
      have hfits' : vector'.type = .null ∨ vector'.type = type := by
        rcases htype' with htype' | ⟨hnull, htype'⟩
        · rwa [htype']
        · rw [htype']
          refine .inr (hvalue.resolve_left ?_)
          rw [hnull]
          exact Bool.false_ne_true
      have hrest := ih htail htypeTail hholds hfits'
      simp only [thrown_ok, Except.ok_bind, happend, bind_assoc, Except.pure_eq_ok, List.append_assoc,
        List.singleton_append] at hrest ⊢
      exact hrest

/-- A vector filled entry by entry. -/
theorem collectVector_represents {n : Nat} {start : ValueType} {entry : Nat → Except VectorError Value}
    {f : Nat → Except Error Value} (hentry : ∀ i < n, entry i = thrown (f i))
    (htype : ∀ i < n, ∀ value, f i = .ok value → value.OfType type) (hstart : start = .null ∨ start = type) :
    EntryRepresents (collectVector start n entry) ((List.range n).mapM f) := by
  have hfold := foldlM_append (fun i (hi : i ∈ List.range n) ↦ hentry i (List.mem_range.1 hi))
    (fun i hi ↦ htype i (List.mem_range.1 hi)) (TypedVector.holds_ofType start)
    (by rwa [TypedVector.ofType, TypedVector.type, VectorStorage.type_filled])
  simp only [List.nil_append, Except.bind_ok] at hfold
  exact hfold

/-- Entries by the index of their row. -/
theorem mapM_range {f : EvalRow → Except Error Value} {g : Nat → Except Error Value}
    (h : ∀ i row, rows[i]? = some row → g i = f row) : (List.range rows.length).mapM g = rows.mapM f := by
  induction rows generalizing g with
  | nil => rfl
  | cons row rows ih =>
    rw [List.length_cons, List.range_succ_eq_map, List.mapM_cons, List.mapM_map, List.mapM_cons, h 0 row rfl]
    have hrest : (List.range rows.length).mapM (g ∘ Nat.succ) = rows.mapM f :=
      ih fun i r hr ↦ h (i + 1) r hr
    rw [hrest]

/-- A vector filled from the rows. -/
theorem collectVector_represents_rows {start : ValueType} {entry : Nat → Except VectorError Value}
    {f : EvalRow → Except Error Value} (hentry : ∀ i row, rows[i]? = some row → entry i = thrown (f row))
    (htype : ∀ row ∈ rows, ∀ value, f row = .ok value → value.OfType type)
    (hstart : start = .null ∨ start = type) :
    EntryRepresents (collectVector start rows.length entry) (rows.mapM f) := by
  rw [← mapM_range (g := fun i ↦ (rows[i]?.map f).getD (.ok .null)) fun i row hrow ↦ by rw [hrow]; rfl]
  refine collectVector_represents (fun i hi ↦ ?_) (fun i hi value hvalue ↦ ?_) hstart
  · have hget := List.getElem?_eq_getElem hi
    rw [hentry i _ hget, hget]
    rfl
  · have hget := List.getElem?_eq_getElem hi
    rw [hget] at hvalue
    exact htype _ (List.mem_of_getElem? hget) value hvalue

/-! ### Evaluation -/

/-- The value at a row is that of the row. -/
theorem getElem?_of_mapM {f : EvalRow → Except Error Value} {values : List Value} (h : rows.mapM f = .ok values)
    {i : Nat} (hrow : rows[i]? = some row) : ∃ value, values[i]? = some value ∧ f row = .ok value := by
  have hvalues := List.mapM_eq_ok_iff.1 h
  obtain ⟨value, hvalue⟩ : ∃ value, values[i]? = some value := by
    refine ⟨_, List.getElem?_eq_getElem ?_⟩
    rw [← hvalues.length_eq]
    exact (List.getElem?_eq_some_iff.1 hrow).1
  exact ⟨value, hvalue, List.Forall₂.getElem? hvalues hrow hvalue⟩

/-- The comparison of an entry of a typed vector. -/
theorem compareEntry_eq {vector : TypedVector} {values : List Value} (h : vector.Holds values) {i : Nat}
    (hvalue : values[i]? = some value) (op : BinaryOperator) (columnOnLeft : Bool) (scalar : Value) :
    compareEntry op columnOnLeft vector scalar i = .ok (compareValue op columnOnLeft value scalar) := by
  rw [compareEntry, compareValue, h.isNull hvalue, Except.ok_bind]
  by_cases hnull : value.isNull || scalar.isNull
  · rw [if_pos hnull, if_pos hnull]
    rfl
  · rw [if_neg hnull, if_neg hnull]
    obtain ⟨hvalueNull, -⟩ : value.isNull = false ∧ scalar.isNull = false := by simpa using hnull
    obtain ⟨htype, helement⟩ := h.element hvalue hvalueNull
    rw [htype]
    dsimp only
    split
    · rename_i hnumeric
      have hvalueNumeric : value.isNumeric := by
        cases value with
        | null | text | blob => exact absurd hnumeric (by simp [Value.type])
        | _ => rfl
      have hscalarNumeric : scalar.isNumeric := by
        rw [Bool.and_eq_true] at hnumeric
        exact hnumeric.2
      rw [elementAt_of_getElem? helement, Except.ok_bind, Value.compare_numeric hvalueNumeric hscalarNumeric]
      rfl
    · rw [h.value hvalue]
      rfl

/-- A comparison with a literal reads a column of the batch. -/
theorem has_of_columnComparison {left right : Expr} {columnOnLeft : Bool}
    (h : columnComparison op left right = some (column, literal, columnOnLeft))
    (hleft : left.ForallColumns (batch.Has rows)) (hright : right.ForallColumns (batch.Has rows)) :
    batch.Has rows column := by
  rw [columnComparison.eq_def] at h
  split at h
  · split at h
    · cases h
      exact hleft
    · cases h
      exact hright
    · cases h
  · cases h

/-- A computation from a vector. -/
theorem EntryRepresents.bind {vector : Except VectorError TypedVector} {entries entries' : Except Error (List Value)}
    {next : TypedVector → Except VectorError TypedVector} (h : EntryRepresents vector entries)
    (hnext : ∀ v values, entries = .ok values → v.Holds values → EntryRepresents (next v) entries')
    (hfails : entries.Fails → entries'.Fails) : EntryRepresents (vector >>= next) entries' := by
  rcases h with ⟨v, values, rfl, hentries, hholds⟩ | ⟨⟨message, rfl⟩, hentries⟩
  · exact hnext v values hentries hholds
  · exact .inr ⟨⟨message, rfl⟩, hfails hentries⟩

/-- Where a part of an expression fails, the expression does. -/
theorem fails_of_part {part whole : EvalRow → Except Error Value} (hpart : ∀ row, (part row).Fails → (whole row).Fails)
    (h : (rows.mapM part).Fails) : (rows.mapM whole).Fails := by
  obtain ⟨row, hrow, hfails⟩ := List.mapM_fails_iff.1 h
  exact List.mapM_fails_iff.2 ⟨row, hrow, hpart row hfails⟩

/-- `evalVector` computes the entries of the rows. -/
theorem evalVector_represents (hcount : batch.rowCount = rows.length) (hrows : rows ≠ [])
    (h : expression.ForallColumns (batch.Has rows)) :
    EntryRepresents (evalVector batch expression) (rows.mapM (evalEntry · expression)) := by
  have hfails (expression : Expr) (message : Error) (hentry : ∀ row, (evalEntry row expression).Fails) :
      EntryRepresents (.error (.thrown message)) (rows.mapM (evalEntry · expression)) := by
    obtain ⟨row, rest, rfl⟩ := List.exists_cons_of_ne_nil hrows
    exact .inr ⟨⟨message, rfl⟩, List.mapM_fails_iff.2 ⟨row, List.mem_cons_self, hentry row⟩⟩
  induction expression using Expr.operatorInduction with
  | literal literal =>
    rw [evalVector, hcount]
    refine collectVector_represents_rows (fun _ _ _ ↦ rfl) (fun row _ value hvalue ↦ .inr ?_) (.inr rfl)
    rw [← Except.ok.inj hvalue]
  | column column =>
    obtain ⟨index, vector, values, hindex, hvector, hholds, -, hvalues⟩ := h
    rw [evalVector, hindex, Except.ok_bind, elementAt_of_getElem? hvector]
    exact .inl ⟨vector, values, rfl, hvalues, hholds⟩
  | binary op left right alias' ihleft ihright =>
    obtain ⟨type, htype⟩ := exists_entryType h
    obtain ⟨hleft, hright⟩ := h
    -- A comparison of a column with a literal has a loop of its own; every other operator works on two vectors.
    cases hcomparison : columnComparison op left right with
    | some comparison =>
      obtain ⟨column, literal, columnOnLeft⟩ := comparison
      obtain ⟨index, vector, values, hindex, hvector, hholds, -, hvalues⟩ :=
        has_of_columnComparison hcomparison hleft hright
      have hentry (row : EvalRow) : evalEntry row (.binary op left right alias') = (do
          pure (compareValue op columnOnLeft (← resolveColumn column row) (literalValue literal))) := by
        rw [evalEntry, hcomparison]
      rw [evalVector, hcomparison]
      dsimp only
      rw [hindex, Except.ok_bind, elementAt_of_getElem? hvector, Except.ok_bind, hcount]
      refine collectVector_represents_rows (fun i row hrow ↦ ?_) (fun row _ value hvalue ↦ ?_) (.inr rfl)
      · obtain ⟨value, hvalue, hrow⟩ := getElem?_of_mapM hvalues hrow
        rw [compareEntry_eq hholds hvalue, hentry, hrow]
        rfl
      · rw [hentry] at hvalue
        obtain ⟨field, -, hvalue⟩ := Except.bind_eq_ok.1 hvalue
        rw [← Except.ok.inj hvalue]
        exact compareValue_type _ _ _ _
    | none =>
      have hentry (row : EvalRow) : evalEntry row (.binary op left right alias') = (do
          applyBinary op (← evalEntry row left) (← evalEntry row right)) := by
        rw [evalEntry, hcomparison]
      rw [evalVector, hcomparison]
      refine (ihleft hleft).bind (fun vector values hvalues hholds ↦
        (ihright hright).bind (fun vector' values' hvalues' hholds' ↦ ?_) (fails_of_part ?_))
        (fails_of_part ?_)
      · rw [hcount]
        refine collectVector_represents_rows (fun i row hrow ↦ ?_) htype (.inl rfl)
        obtain ⟨value, hvalue, hleftRow⟩ := getElem?_of_mapM hvalues hrow
        obtain ⟨value', hvalue', hrightRow⟩ := getElem?_of_mapM hvalues' hrow
        rw [hholds.value hvalue, hholds'.value hvalue', hentry, hleftRow, hrightRow]
        rfl
      -- The left vector is evaluated first, so a row fails with the left operand where both do.
      · intro row hfails
        rw [hentry, Except.fails_bind]
        by_cases hl : (evalEntry row left).Fails
        · exact .inl hl
        · obtain ⟨l, hl⟩ := Except.not_fails_iff.1 hl
          exact .inr ⟨l, hl, Except.fails_bind.2 (.inl hfails)⟩
      · intro row hfails
        rw [hentry]
        exact Except.fails_bind.2 (.inl hfails)
  | unary op operand alias' ih =>
    obtain ⟨type, htype⟩ := exists_entryType h
    refine (ih h).bind (fun vector values hvalues hholds ↦ ?_)
      (fails_of_part fun row hfails ↦ Except.fails_bind.2 (.inl hfails))
    rw [hcount]
    refine collectVector_represents_rows (fun i row hrow ↦ ?_) htype (.inl rfl)
    obtain ⟨value, hvalue, hoperand⟩ := getElem?_of_mapM hvalues hrow
    rw [hholds.value hvalue, evalEntry, hoperand]
    rfl
  | wildcard wildcard => exact hfails _ _ fun row ↦ ⟨_, rfl⟩
  | function name args distinct alias' =>
    refine hfails _ _ fun row ↦ ?_
    rw [evalEntry, eval]
    · split <;> exact ⟨_, rfl⟩
    · simp
    · simp
  | window => exact hfails _ _ fun row ↦ ⟨_, rfl⟩
  | subquery => exact hfails _ _ fun row ↦ ⟨_, rfl⟩

/-! ### Values that are not NaN -/

/-- All literals under the operators of the expression. -/
def Expr.ForallLiterals (p : Literal → Prop) : Expr → Prop
  | .literal literal => p literal
  | .binary _ left right _ => left.ForallLiterals p ∧ right.ForallLiterals p
  | .unary _ operand _ => operand.ForallLiterals p
  | _ => True

/-- Comparing values is comparing numbers or texts, NaN apart. -/
theorem applyBinary_comparison (hop : comparisonOperator op) (hleft : left.isNaN = false)
    (hright : right.isNaN = false) : applyBinary op left right = .ok (compareValue op true left right) := by
  rw [compareValue]
  by_cases hnull : left.isNull || right.isNull
  · rw [if_pos hnull]
    cases op with
    | eq | ne | lt | gt | le | ge => exact if_pos hnull
    | _ => cases hop
  · rw [if_neg hnull]
    have heq : (left.compare right).isEq = (left == right) := by
      rw [Bool.eq_iff_iff, Ordering.isEq_iff_eq_eq, Value.compare_eq_iff hleft hright]
    cases op with
    | eq =>
      refine (if_neg hnull).trans ?_
      rw [← heq]
      rfl
    | ne =>
      refine (if_neg hnull).trans ?_
      rw [bne, ← heq]
      cases left.compare right <;> rfl
    | lt | gt | le | ge => exact if_neg hnull
    | _ => cases hop

/-- A literal on the left is compared from the right. -/
theorem compareValue_swap (op : BinaryOperator) (value scalar : Value) :
    compareValue op true scalar value = compareValue op false value scalar := by
  rw [compareValue, compareValue, Bool.or_comm, Value.compare_swap value scalar]
  rfl

/-- Without NaNs `evalVector` computes what `eval` computes. -/
theorem evalEntry_eq_eval
    (hcolumns : expression.ForallColumns fun column ↦ ∀ value, resolveColumn column row = .ok value → value.isNaN = false)
    (hliterals : expression.ForallLiterals fun literal ↦ (literalValue literal).isNaN = false) :
    evalEntry row expression = eval expression row := by
  induction expression using Expr.operatorInduction with
  | binary op left right alias' ihleft ihright =>
    obtain ⟨hcolumnsLeft, hcolumnsRight⟩ := hcolumns
    obtain ⟨hliteralsLeft, hliteralsRight⟩ := hliterals
    rw [evalEntry, eval]
    cases hcomparison : columnComparison op left right with
    | none =>
      dsimp only
      rw [ihleft hcolumnsLeft hliteralsLeft, ihright hcolumnsRight hliteralsRight]
    | some comparison =>
      obtain ⟨column, literal, columnOnLeft⟩ := comparison
      rw [columnComparison.eq_def] at hcomparison
      -- The column may stand on either side of the literal.
      split at hcomparison
      · rename_i hop
        split at hcomparison
        · cases hcomparison
          have hfield : eval (.column column) row = resolveColumn column row := rfl
          have hscalar : eval (.literal literal) row = .ok (literalValue literal) := rfl
          rw [hfield, hscalar]
          dsimp only
          cases hvalue : resolveColumn column row with
          | error message => rfl
          | ok value =>
            exact (applyBinary_comparison hop (hcolumnsLeft value hvalue) hliteralsRight).symm
        · cases hcomparison
          have hfield : eval (.column column) row = resolveColumn column row := rfl
          have hscalar : eval (.literal literal) row = .ok (literalValue literal) := rfl
          rw [hfield, hscalar]
          dsimp only
          cases hvalue : resolveColumn column row with
          | error message => rfl
          | ok value =>
            -- The loop compares the column with the literal, so the order of the two is turned round.
            have happly := applyBinary_comparison hop hliteralsLeft (hcolumnsRight value hvalue)
            rw [compareValue_swap] at happly
            exact happly.symm
        · cases hcomparison
      · cases hcomparison
  | unary op operand alias' ih =>
    rw [evalEntry, eval, ih hcolumns hliterals]
  | _ => rw [evalEntry] <;> simp

end SkibidiQL
