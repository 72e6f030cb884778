import SkibidiQL.Base.LineText
import SkibidiQL.Prompt.TokenBudget
import SkibidiQL.Storage.ValueText

/-!
# Printed results

`printNativeResult` prints a row of a result on a line, field by field, and escapes nothing. The context
tool splits the output into lines and takes those that begin with the name of a field. The value that the
engine computed for `current_context` is the one that is extracted exactly when no text that is rendered
has a line break, and no other text that is printed has a line that is taken for the field
(`spillContext_readsBack_iff`).
-/

namespace SkibidiQL

open Bytes

/-! ### The writer and the reader -/

/-- A line of `printNativeResult`. -/
def printNativeRow (columns : List Bytes) (row : Tuple) : Bytes :=
  joinStrings (lit " | ") (row.zipIdx.map fun cell ↦
    columns.getD cell.2 (lit "column" ++ ofNat (cell.2 + 1)) ++ lit "=" ++ cell.1.toString) ++ [10]

/-- `printNativeResult`. -/
def printNativeResult (result : NativeQueryResult) : Bytes :=
  result.rows.flatMap (printNativeRow result.columns)

/-- What a line of the output begins with when it gives a field. -/
def fieldHead (field : List Char) : List Char :=
  "field=".toList ++ field ++ " | value=".toList

/-- The values that the lines give for a field. -/
def valuesIn (field : List Char) (lines : List (List Char)) : List (List Char) :=
  (lines.filter ((fieldHead field).isPrefixOf ·)).map (·.drop (fieldHead field).length)

/-- `extract_field_values`. -/
def extractFieldValues (output field : List Char) : List (List Char) :=
  valuesIn field (splitlines output)

/-- The printed result is UTF-8, and one value is extracted of it for the field, the one that the result
has. -/
def NativeQueryResult.ReadsBack (result : NativeQueryResult) (field : String) : Prop :=
  ∃ output value, encodeUtf8 output = printNativeResult result ∧
    extractFieldValues output field.toList = [value] ∧
    fieldValue field result.rows = some (.text (encodeUtf8 value))

/-! ### Lines with fields -/

/-- The name of a field: no blanks, no breaks. -/
def PlainField (field : String) : Prop :=
  ∀ c ∈ field.toList, c.toNat < 128 ∧ c ≠ ' ' ∧ isLineBreak c = false

instance (field : String) : Decidable (PlainField field) :=
  List.decidableBAll _ field.toList

/-- Texts that end at a blank are prefixes of one another only if they are the same. -/
theorem eq_of_blank_isPrefix {x y : List Char} {behind behind' : List Char} (hx : ' ' ∉ x) (hy : ' ' ∉ y)
    (h : x ++ ' ' :: behind <+: y ++ ' ' :: behind') : x = y := by
  induction x generalizing y with
  | nil =>
    rcases y with _ | ⟨d, y⟩
    · rfl
    · obtain ⟨rfl, -⟩ := List.cons_prefix_cons.1 h
      exact absurd List.mem_cons_self hy
  | cons c x ih =>
    rcases y with _ | ⟨d, y⟩
    · obtain ⟨rfl, -⟩ := List.cons_prefix_cons.1 h
      exact absurd List.mem_cons_self hx
    · obtain ⟨rfl, htail⟩ := List.cons_prefix_cons.1 h
      rw [ih (fun hmem ↦ hx (List.mem_cons_of_mem _ hmem)) (fun hmem ↦ hy (List.mem_cons_of_mem _ hmem)) htail]

section Fields

variable {field other : String} {text rest : List Char}

theorem PlainField.blank (h : PlainField field) : ' ' ∉ field.toList :=
  fun hmem ↦ (h _ hmem).2.1 rfl

theorem PlainField.unbroken (h : PlainField field) : Unbroken (fieldHead field.toList) := by
  have hfield : Unbroken field.toList := fun c hc ↦ (h c hc).2.2
  exact unbroken_append.2 ⟨unbroken_append.2 ⟨by decide, hfield⟩, by decide⟩

/-- A line begins with the head of one field only. -/
theorem fieldHead_isPrefix_iff (hfield : PlainField field) (hother : PlainField other) :
    fieldHead field.toList <+: fieldHead other.toList ++ text ↔ other = field := by
  constructor
  · intro h
    rw [fieldHead, fieldHead, List.append_assoc, List.append_assoc, List.append_assoc,
      List.prefix_append_right_inj] at h
    exact (String.toList_injective (eq_of_blank_isPrefix hfield.blank hother.blank h)).symm
  · rintro rfl
    exact List.prefix_append _ _

/-- The values of a field, block of lines by block. -/
theorem valuesIn_append (field : List Char) (lines lines' : List (List Char)) :
    valuesIn field (lines ++ lines') = valuesIn field lines ++ valuesIn field lines' := by
  rw [valuesIn, List.filter_append, List.map_append]
  rfl

/-- A field has no value where no line begins with its head. -/
theorem valuesIn_eq_nil_iff {field : List Char} {lines : List (List Char)} :
    valuesIn field lines = [] ↔ ∀ line ∈ lines, ¬fieldHead field <+: line := by
  rw [valuesIn, List.map_eq_nil_iff, List.filter_eq_nil_iff]
  exact forall₂_congr fun line _ ↦ not_congr List.isPrefixOf_iff_prefix

/-- What is extracted of the line of a field, and of the lines behind it. -/
theorem extractFieldValues_field (hfield : PlainField field) (hother : PlainField other) :
    extractFieldValues (fieldHead other.toList ++ text ++ '\n' :: rest) field.toList =
      (if other = field then [firstLine text] else []) ++ valuesIn field.toList (laterLines text) ++
        extractFieldValues rest field.toList := by
  rw [extractFieldValues, splitlines_append, splitlines_behind hother.unbroken, valuesIn_append,
    ← List.singleton_append, valuesIn_append]
  congr 2
  have hhead : fieldHead field.toList <+: fieldHead other.toList ++ firstLine text ↔ other = field :=
    fieldHead_isPrefix_iff hfield hother
  split
  · next heq =>
    subst heq
    rw [valuesIn, List.filter_cons_of_pos (List.isPrefixOf_iff_prefix.2 (hhead.2 rfl))]
    simp
  · next hne =>
    exact valuesIn_eq_nil_iff.2 fun line hline ↦ by
      rw [List.mem_singleton.1 hline]
      exact mt hhead.1 hne

end Fields

/-! ### Outputs -/

/-- The bytes of a line that gives a field. -/
def printField (item : String × Bytes) : Bytes :=
  lit "field=" ++ lit item.1 ++ lit " | value=" ++ item.2 ++ [10]

/-- A result of fields and values prints one line for each. -/
theorem printNativeResult_fields (result : NativeQueryResult) (items : List (String × Bytes))
    (hcolumns : result.columns = [lit "field", lit "value"])
    (hrows : result.rows = items.map fun item ↦ keyValue (lit item.1) item.2) :
    printNativeResult result = items.flatMap printField := by
  rw [printNativeResult, hcolumns, hrows, List.flatMap_map]
  refine List.flatMap_congr fun item _ ↦ ?_
  show lit "field" ++ lit "=" ++ lit item.1 ++ lit " | " ++ (lit "value" ++ lit "=" ++ item.2) ++ [10] = _
  simp only [printField, List.append_assoc]
  rfl

/-- ASCII texts are their bytes. -/
theorem encodeUtf8_lit {s : String} (h : s.toList.all fun c ↦ c.toNat < 128) :
    encodeUtf8 s.toList = lit s := by
  rw [encodeUtf8, lit, List.map_eq_flatMap]
  refine List.flatMap_congr fun c hc ↦ ?_
  obtain ⟨-, hone⟩ | ⟨hlarge, -, -⟩ := utf8EncodeChar_cases c
  · exact hone
  · exact absurd (of_decide_eq_true (List.all_eq_true.1 h c hc)) (Nat.not_lt.2 hlarge)

/-- The bytes of the head of a field. -/
theorem encodeUtf8_fieldHead {field : String} (h : PlainField field) :
    encodeUtf8 (fieldHead field.toList) = lit "field=" ++ lit field ++ lit " | value=" := by
  have hascii : field.toList.all fun c ↦ c.toNat < 128 :=
    List.all_eq_true.2 fun c hc ↦ decide_eq_true (h c hc).1
  rw [fieldHead, encodeUtf8_append, encodeUtf8_append, encodeUtf8_lit hascii, encodeUtf8_lit (by decide),
    encodeUtf8_lit (by decide)]

/-- What is extracted of a UTF-8 output. -/
def ReadAs (field : String) (items : List (String × Bytes)) (values : List (List Char)) : Prop :=
  ∃ output, encodeUtf8 output = items.flatMap printField ∧ extractFieldValues output field.toList = values

/-- A text that can be printed before or behind a field: no line but the first is taken for the field. -/
def Harmless (field : String) (bytes : Bytes) : Prop :=
  ∃ text, encodeUtf8 text = bytes ∧ ∀ line ∈ laterLines text, ¬fieldHead field.toList <+: line

section Outputs

variable {field : String} {items : List (String × Bytes)} {values : List (List Char)}

/-- Nothing is read from no items. -/
theorem readAs_nil : ReadAs field [] values ↔ values = [] := by
  constructor
  · rintro ⟨output, hutf, rfl⟩
    obtain rfl : output = [] := encodeUtf8_injective hutf
    rfl
  · rintro rfl
    exact ⟨[], rfl, rfl⟩

/-- The line of a field is read with the lines behind it, and then the rest. -/
theorem readAs_cons (hfield : PlainField field) {item : String × Bytes} (hitem : PlainField item.1) :
    ReadAs field (item :: items) values ↔
      ∃ text rest, encodeUtf8 text = item.2 ∧ ReadAs field items rest ∧
        values = (if item.1 = field then [firstLine text] else []) ++
          valuesIn field.toList (laterLines text) ++ rest := by
  have hnewline : encodeUtf8 ['\n'] = [10] := rfl
  constructor
  · rintro ⟨output, hutf, rfl⟩
    -- the bytes of `=` and of the line feed cut the output
    have hcut : encodeUtf8 output =
        (lit "field=" ++ lit item.1 ++ lit " | value") ++ 61 :: (item.2 ++ 10 :: items.flatMap printField) := by
      rw [hutf, List.flatMap_cons, printField, show lit " | value=" = lit " | value" ++ [61] from rfl]
      simp only [List.append_assoc, List.cons_append, List.nil_append]
    obtain ⟨front, back, hfront, hback, rfl⟩ := exists_of_encodeUtf8_eq_append (by decide) hcut
    obtain ⟨text, rest, htext, hrest, rfl⟩ := exists_of_encodeUtf8_eq_append (by decide) hback
    refine ⟨text, _, htext, ⟨rest, hrest, rfl⟩, ?_⟩
    have hhead : front ++ [Char.ofNat (61 : UInt8).toNat] = fieldHead item.1.toList := by
      apply encodeUtf8_injective
      rw [encodeUtf8_append, hfront, encodeUtf8_fieldHead hitem, show lit " | value=" = lit " | value" ++ [61] from rfl]
      simp only [List.append_assoc]
      rfl
    rw [← extractFieldValues_field hfield hitem, ← hhead]
    simp only [List.append_assoc, List.singleton_append]
    rfl
  · rintro ⟨text, rest, htext, ⟨output, hutf, rfl⟩, rfl⟩
    refine ⟨fieldHead item.1.toList ++ text ++ '\n' :: output, ?_, extractFieldValues_field hfield hitem⟩
    rw [← List.singleton_append, encodeUtf8_append, encodeUtf8_append, encodeUtf8_append, htext, hutf, hnewline,
      encodeUtf8_fieldHead hitem, List.flatMap_cons, printField]
    simp only [List.append_assoc]

/-- Of its own item a field reads the first line, and then what the other lines hold. -/
theorem readAs_self (hfield : PlainField field) {bytes : Bytes} :
    ReadAs field ((field, bytes) :: items) values ↔
      ∃ text rest, encodeUtf8 text = bytes ∧ ReadAs field items rest ∧
        values = firstLine text :: (valuesIn field.toList (laterLines text) ++ rest) := by
  simpa only [if_true, List.cons_append, List.nil_append] using
    @readAs_cons field items values hfield (field, bytes) hfield

/-- Of another item it reads what the later lines hold. -/
theorem readAs_of_ne (hfield : PlainField field) {item : String × Bytes} (hitem : PlainField item.1)
    (hne : item.1 ≠ field) :
    ReadAs field (item :: items) values ↔
      ∃ text rest, encodeUtf8 text = item.2 ∧ ReadAs field items rest ∧
        values = valuesIn field.toList (laterLines text) ++ rest := by
  simpa only [if_neg hne, List.nil_append] using readAs_cons hfield hitem

/-- Nothing is extracted of other fields unless one of them has a line that is taken for the field. -/
theorem readAs_others (hfield : PlainField field)
    (hitems : ∀ item ∈ items, PlainField item.1 ∧ item.1 ≠ field) :
    ReadAs field items [] ↔ ∀ item ∈ items, Harmless field item.2 := by
  induction items with
  | nil => exact iff_of_true (readAs_nil.2 rfl) (List.forall_mem_nil _)
  | cons item items ih =>
    obtain ⟨⟨hplain, hne⟩, hrest⟩ := List.forall_mem_cons.1 hitems
    rw [readAs_of_ne hfield hplain hne, List.forall_mem_cons]
    constructor
    · rintro ⟨text, rest, htext, hread, hnil⟩
      obtain ⟨hlater, rfl⟩ := List.append_eq_nil_iff.1 hnil.symm
      exact ⟨⟨text, htext, valuesIn_eq_nil_iff.1 hlater⟩, (ih hrest).1 hread⟩
    · rintro ⟨⟨text, htext, hlater⟩, hharmless⟩
      refine ⟨text, [], htext, (ih hrest).2 hharmless, ?_⟩
      rw [valuesIn_eq_nil_iff.2 hlater]
      rfl

variable {before behind : List (String × Bytes)} {bytes : Bytes}

/-- A field that is printed is read. -/
theorem readAs_ne_nil (hfield : PlainField field) (hbefore : ∀ item ∈ before, PlainField item.1)
    (h : ReadAs field (before ++ (field, bytes) :: behind) values) : values ≠ [] := by
  induction before generalizing values with
  | nil =>
    obtain ⟨text, rest, -, -, rfl⟩ := (readAs_self hfield).1 h
    exact List.cons_ne_nil _ _
  | cons item before ih =>
    obtain ⟨hplain, hrest⟩ := List.forall_mem_cons.1 hbefore
    obtain ⟨text, rest, -, hread, rfl⟩ := (readAs_cons hfield hplain).1 h
    exact List.append_ne_nil_of_right_ne_nil _ (ih hrest hread)

/-- One value is extracted exactly when the other texts are harmless, and it is the first line. -/
theorem readAs_singleton (hfield : PlainField field)
    (hbefore : ∀ item ∈ before, PlainField item.1 ∧ item.1 ≠ field)
    (hbehind : ∀ item ∈ behind, PlainField item.1 ∧ item.1 ≠ field) {value : List Char} :
    ReadAs field (before ++ (field, bytes) :: behind) [value] ↔
      (∃ text, encodeUtf8 text = bytes ∧ firstLine text = value ∧
        ∀ line ∈ laterLines text, ¬fieldHead field.toList <+: line) ∧
      ∀ item ∈ before ++ behind, Harmless field item.2 := by
  induction before with
  | nil =>
    rw [List.nil_append, List.nil_append, readAs_self hfield]
    constructor
    · rintro ⟨text, rest, htext, hread, hvalues⟩
      obtain ⟨rfl, hnil⟩ := List.cons.inj hvalues
      obtain ⟨hlater, rfl⟩ := List.append_eq_nil_iff.1 hnil.symm
      exact ⟨⟨text, htext, rfl, valuesIn_eq_nil_iff.1 hlater⟩, (readAs_others hfield hbehind).1 hread⟩
    · rintro ⟨⟨text, htext, rfl, hlater⟩, hharmless⟩
      refine ⟨text, [], htext, (readAs_others hfield hbehind).2 hharmless, ?_⟩
      rw [valuesIn_eq_nil_iff.2 hlater]
      rfl
  | cons item before ih =>
    obtain ⟨⟨hplain, hne⟩, hrest⟩ := List.forall_mem_cons.1 hbefore
    rw [List.cons_append, readAs_of_ne hfield hplain hne, List.cons_append, List.forall_mem_cons,
      and_left_comm, ← ih hrest]
    constructor
    · rintro ⟨text, rest, htext, hread, hvalues⟩
      -- the field itself gives a value, so this text gives none
      have hne' := readAs_ne_nil hfield (fun item hitem ↦ (hrest item hitem).1) hread
      obtain ⟨hlater, hvalue⟩ | ⟨-, hnil⟩ := List.singleton_eq_append_iff.1 hvalues
      · exact ⟨⟨text, htext, valuesIn_eq_nil_iff.1 hlater⟩, hvalue ▸ hread⟩
      · exact absurd hnil hne'
    · rintro ⟨⟨text, htext, hlater⟩, hread⟩
      refine ⟨text, [value], htext, hread, ?_⟩
      rw [valuesIn_eq_nil_iff.2 hlater]
      rfl

/-- A result reads back for a field exactly when the text of the field has no line break, and the other
texts are harmless. -/
theorem readsBack_iff {result : NativeQueryResult} (hcolumns : result.columns = [lit "field", lit "value"])
    (hrows : result.rows =
      (before ++ (field, bytes) :: behind).map fun item ↦ keyValue (lit item.1) item.2)
    (hvalue : fieldValue field result.rows = some (.text bytes)) (hfield : PlainField field)
    (hbefore : ∀ item ∈ before, PlainField item.1 ∧ item.1 ≠ field)
    (hbehind : ∀ item ∈ behind, PlainField item.1 ∧ item.1 ≠ field) :
    result.ReadsBack field ↔ (∃ text, encodeUtf8 text = bytes ∧ Unbroken text) ∧
      ∀ item ∈ before ++ behind, Harmless field item.2 := by
  have hread : result.ReadsBack field ↔
      ∃ value, ReadAs field (before ++ (field, bytes) :: behind) [value] ∧ bytes = encodeUtf8 value := by
    rw [NativeQueryResult.ReadsBack, printNativeResult_fields result _ hcolumns hrows, hvalue]
    constructor
    · rintro ⟨output, value, hutf, hextract, hsame⟩
      exact ⟨value, ⟨output, hutf, hextract⟩, Value.text.inj (Option.some.inj hsame)⟩
    · rintro ⟨value, ⟨output, hutf, hextract⟩, rfl⟩
      exact ⟨output, value, hutf, hextract, rfl⟩
  rw [hread]
  constructor
  · rintro ⟨value, hone, hbytes⟩
    obtain ⟨⟨text, htext, hfirst, -⟩, hharmless⟩ := (readAs_singleton hfield hbefore hbehind).1 hone
    obtain rfl : text = value := encodeUtf8_injective (htext.trans hbytes)
    exact ⟨⟨text, htext, firstLine_eq_iff.1 hfirst⟩, hharmless⟩
  · rintro ⟨⟨text, rfl, hunbroken⟩, hharmless⟩
    refine ⟨text, (readAs_singleton hfield hbefore hbehind).2 ⟨⟨text, rfl, firstLine_eq_iff.2 hunbroken, ?_⟩,
      hharmless⟩, rfl⟩
    rw [laterLines_eq_nil hunbroken]
    exact List.forall_mem_nil _

end Outputs

/-! ### Spilled contexts -/

/-- The text of an invalidated atom in a view. -/
def invalidatedText (atom : ContextAtomMeta) : Bytes :=
  atom.key ++ lit "=" ++ redactIfNeeded atom.value atom.accessLabels ++
    lit " @" ++ atom.source ++ lit " invalidated_by=" ++ atom.invalidatedBy

section Spill

variable (context : ConversationContextMeta) (statement : ContextQueryStmt)

/-- The texts of the admitted atoms. -/
def renderedTexts : List Bytes :=
  (renderedCandidates context statement).map (RankedAtom.text statement.receipts)

/-- The texts of the invalidated atoms that a view lists. -/
def invalidatedTexts : List Bytes :=
  if statement.receipts then
    (((matchingAtoms context (tabFilterOf context statement.tab)).map Prod.fst).filter fun atom ↦
      atom.status == lit "invalidated").map invalidatedText
  else []

/-- The texts in front of the rendered atoms that come from statements: the names of the context and of the
tab, the query, the labels and the entities. -/
def givenTexts : List Bytes :=
  let tabFilter := tabFilterOf context statement.tab
  [context.name, statement.query, if tabFilter.isEmpty then lit "all" else tabFilter,
    accessPolicy (visibleLabels context tabFilter), joinStrings (lit ",") (visibleEntities context tabFilter)]

/-- The rows of a view in front of the rendered atoms. -/
def fieldsBefore : List (String × Bytes) :=
  let tabFilter := tabFilterOf context statement.tab
  let rendered := renderedCandidates context statement
  [("context", context.name),
    ("query", statement.query),
    ("tab", if tabFilter.isEmpty then lit "all" else tabFilter),
    ("token_budget", ofNat statement.tokenBudget),
    ("token_cost", ofNat (renderedCost context statement)),
    ("messages", ofNat context.messages.length),
    ("active_atoms", ofNat (candidates context statement).length),
    ("rendered_atoms", ofNat rendered.length),
    ("redacted_atoms", ofNat (rendered.countP fun ranked ↦ shouldRedact ranked.atom.accessLabels)),
    ("schema_registry", lit "CSR: ConversationMessage.v1 + ContextAtom.v1"),
    ("dcf_storage_route", lit
      "structured=catalog.contexts.messages+atoms; vector=ConversationMessage.content; blob=tool/object refs"),
    ("access_policy", accessPolicy (visibleLabels context tabFilter)),
    ("mentioned_entities", joinStrings (lit ",") (visibleEntities context tabFilter)),
    ("indexed_fields", lit
      "ContextAtom.key,type,status,tab,tags,source,access_labels; ConversationMessage.tab,tags,mentioned_entities,access_labels")]

/-- The rows of a view behind `current_context`. -/
def fieldsBehind : List (String × Bytes) :=
  (renderedTexts context statement).map (("view_atom", ·)) ++
    (invalidatedTexts context statement).map (("invalidated", ·))

/-- The rows of the view are its fields, the context among them. -/
theorem spillContext_rows :
    (spillContext context statement).rows =
      (fieldsBefore context statement ++
        ("current_context", joinStrings (lit " | ") (renderedTexts context statement)) ::
          fieldsBehind context statement).map fun item ↦ keyValue (lit item.1) item.2 := by
  have hviews : (renderedTexts context statement).map (keyValue (lit "view_atom")) =
      ((renderedTexts context statement).map (("view_atom", ·))).map
        fun item ↦ keyValue (lit item.1) item.2 := by
    rw [List.map_map]
    rfl
  have hinvalidated : (if statement.receipts then
        (((matchingAtoms context (tabFilterOf context statement.tab)).map Prod.fst).filter fun atom ↦
          atom.status == lit "invalidated").map fun atom ↦ keyValue (lit "invalidated") (invalidatedText atom)
      else []) = ((invalidatedTexts context statement).map (("invalidated", ·))).map
        fun item ↦ keyValue (lit item.1) item.2 := by
    rw [invalidatedTexts]
    split
    · rw [List.map_map, List.map_map]
      rfl
    · rfl
  rw [List.map_append, List.map_cons, fieldsBehind, List.map_append, ← hviews, ← hinvalidated]
  simp only [spillContext, budgeted_eq_accept, List.length_map, List.countP_map, List.map_map,
    List.append_assoc, fieldsBefore, List.map_cons, List.map_nil, List.cons_append, List.nil_append,
    renderedTexts, renderedCost, candidates, renderedCandidates, invalidatedText, RankedAtom.text,
    Function.comp_def]
  rfl

/-- No admitted atom has a line break, and no other text of the view has a line that is taken for the
field. All of them are UTF-8. -/
structure PrintsWhole : Prop where
  rendered : ∀ bytes ∈ renderedTexts context statement, ∃ text, encodeUtf8 text = bytes ∧ Unbroken text
  others : ∀ bytes ∈ givenTexts context statement ++ invalidatedTexts context statement,
    Harmless "current_context" bytes

end Spill

section Texts

/-- A value on one line is harmless. -/
theorem Harmless.of_unbroken {field : String} {bytes : Bytes}
    (h : ∃ text, encodeUtf8 text = bytes ∧ Unbroken text) : Harmless field bytes := by
  obtain ⟨text, htext, hunbroken⟩ := h
  refine ⟨text, htext, ?_⟩
  rw [laterLines_eq_nil hunbroken]
  exact List.forall_mem_nil _

/-- Printable ASCII. -/
theorem unbroken_of_printable {bytes : Bytes} (h : ∀ b ∈ bytes, 32 ≤ b ∧ b < 127) :
    ∃ text, encodeUtf8 text = bytes ∧ Unbroken text := by
  induction bytes with
  | nil => exact ⟨[], rfl, List.forall_mem_nil _⟩
  | cons b bytes ih =>
    obtain ⟨⟨hlow, hhigh⟩, hrest⟩ := List.forall_mem_cons.1 h
    obtain ⟨text, rfl, hunbroken⟩ := ih hrest
    have hlow' : 32 ≤ b.toNat := UInt8.le_iff_toNat_le.1 hlow
    have hhigh' : b.toNat < 127 := UInt8.lt_iff_toNat_lt.1 hhigh
    have hvalid : ∀ n < 127, (Char.ofNat n).toNat = n := by decide
    have hc := hvalid b.toNat hhigh'
    refine ⟨Char.ofNat b.toNat :: text, ?_, List.forall_mem_cons.2 ⟨?_, hunbroken⟩⟩
    · obtain ⟨-, hone⟩ | ⟨hlarge, -, -⟩ := utf8EncodeChar_cases (Char.ofNat b.toNat)
      · rw [encodeUtf8_cons, hone, hc, UInt8.ofNat_toNat]
        rfl
      · omega
    · rw [isLineBreak, hc]
      simp only [List.mem_cons, List.not_mem_nil, or_false, decide_eq_false_iff_not]
      omega

/-- Joined texts are a text. -/
theorem isUtf8_joined {parts : List Bytes} (hutf : ∀ part ∈ parts, ∃ text, encodeUtf8 text = part) :
    ∃ text, encodeUtf8 text = joinStrings (lit " | ") parts := by
  induction parts with
  | nil => exact ⟨[], rfl⟩
  | cons part parts ih =>
    obtain ⟨⟨text, rfl⟩, hrest⟩ := List.forall_mem_cons.1 hutf
    obtain ⟨joined, hjoined⟩ := ih hrest
    rcases parts with _ | ⟨next, parts⟩
    · exact ⟨text, rfl⟩
    · refine ⟨text ++ " | ".toList ++ joined, ?_⟩
      rw [encodeUtf8_append, encodeUtf8_append, hjoined]
      rfl

/-- Texts joined by bars have no line break when none of them has. -/
theorem unbroken_joined_iff {parts : List Bytes} (hutf : ∀ part ∈ parts, ∃ text, encodeUtf8 text = part) :
    (∃ text, encodeUtf8 text = joinStrings (lit " | ") parts ∧ Unbroken text) ↔
      ∀ part ∈ parts, ∃ text, encodeUtf8 text = part ∧ Unbroken text := by
  induction parts with
  | nil => exact iff_of_true ⟨[], rfl, List.forall_mem_nil _⟩ (List.forall_mem_nil _)
  | cons part parts ih =>
    obtain ⟨⟨text, rfl⟩, hrest⟩ := List.forall_mem_cons.1 hutf
    have hself : (∃ text', encodeUtf8 text' = encodeUtf8 text ∧ Unbroken text') ↔ Unbroken text :=
      ⟨fun ⟨text', hsame, h⟩ ↦ encodeUtf8_injective hsame ▸ h, fun h ↦ ⟨text, rfl, h⟩⟩
    rw [List.forall_mem_cons, hself]
    rcases parts with _ | ⟨next, parts⟩
    · exact hself.trans (and_iff_left (List.forall_mem_nil _)).symm
    · obtain ⟨joined, hjoined⟩ := isUtf8_joined hrest
      have hbars : Unbroken " | ".toList := by decide
      have hwhole : encodeUtf8 (text ++ " | ".toList ++ joined) =
          joinStrings (lit " | ") (encodeUtf8 text :: next :: parts) := by
        rw [encodeUtf8_append, encodeUtf8_append, hjoined]
        rfl
      rw [← ih hrest, ← hwhole, ← hjoined]
      constructor
      · rintro ⟨text', hsame, h⟩
        obtain rfl := encodeUtf8_injective hsame
        exact ⟨(unbroken_append.1 (unbroken_append.1 h).1).1, joined, rfl, (unbroken_append.1 h).2⟩
      · rintro ⟨h, joined', hsame, h'⟩
        obtain rfl := encodeUtf8_injective hsame
        exact ⟨_, rfl, unbroken_append.2 ⟨unbroken_append.2 ⟨h, hbars⟩, h'⟩⟩

end Texts

section Spill

variable (context : ConversationContextMeta) (statement : ContextQueryStmt)

/-- The fields before the context have plain names of their own. -/
theorem fieldsBefore_plain : ∀ item ∈ fieldsBefore context statement,
    PlainField item.1 ∧ item.1 ≠ "current_context" := by
  have hnames : ∀ name ∈ ["context", "query", "tab", "token_budget", "token_cost", "messages", "active_atoms",
      "rendered_atoms", "redacted_atoms", "schema_registry", "dcf_storage_route", "access_policy",
      "mentioned_entities", "indexed_fields"], PlainField name ∧ name ≠ "current_context" := by
    decide +kernel
  intro item hitem
  have hname : item.1 ∈ (fieldsBefore context statement).map Prod.fst := List.mem_map_of_mem hitem
  exact hnames item.1 hname

/-- The fields behind the context have plain names of their own. -/
theorem fieldsBehind_plain : ∀ item ∈ fieldsBehind context statement,
    PlainField item.1 ∧ item.1 ≠ "current_context" := by
  intro item hitem
  rcases List.mem_append.1 hitem with hitem | hitem <;> obtain ⟨bytes, -, rfl⟩ := List.mem_map.1 hitem
  · exact (by decide +kernel : PlainField "view_atom" ∧ "view_atom" ≠ "current_context")
  · exact (by decide +kernel : PlainField "invalidated" ∧ "invalidated" ≠ "current_context")

theorem harmless_ofNat (field : String) (n : Nat) : Harmless field (ofNat n) := by
  refine .of_unbroken (unbroken_of_printable fun b hb ↦ ?_)
  have hdigit := isDigit_ofNat n b hb
  rw [isDigit, Bool.and_eq_true, decide_eq_true_eq, decide_eq_true_eq] at hdigit
  exact ⟨UInt8.le_trans (by decide) hdigit.1, UInt8.lt_of_le_of_lt hdigit.2 (by decide)⟩

/-- The numbers and the fixed texts are harmless. -/
theorem fieldsBefore_harmless_iff : (∀ item ∈ fieldsBefore context statement, Harmless "current_context" item.2) ↔
    ∀ bytes ∈ givenTexts context statement, Harmless "current_context" bytes := by
  have hfixed (bytes : Bytes) (h : bytes.all fun b ↦ 32 ≤ b && b < 127) : Harmless "current_context" bytes := by
    refine .of_unbroken (unbroken_of_printable fun b hb ↦ ?_)
    have hb := List.all_eq_true.1 h b hb
    rwa [Bool.and_eq_true, decide_eq_true_eq, decide_eq_true_eq] at hb
  simp only [fieldsBefore, givenTexts, List.forall_mem_cons, harmless_ofNat, List.not_mem_nil, true_and]
  have h₁ := hfixed (lit "CSR: ConversationMessage.v1 + ContextAtom.v1") (by decide +kernel)
  have h₂ := hfixed (lit
    "structured=catalog.contexts.messages+atoms; vector=ConversationMessage.content; blob=tool/object refs")
    (by decide +kernel)
  have h₃ := hfixed (lit
    "ContextAtom.key,type,status,tab,tags,source,access_labels; ConversationMessage.tab,tags,mentioned_entities,access_labels")
    (by decide +kernel)
  simp only [h₁, h₂, h₃, true_and, false_imp_iff, implies_true]

/-- What is printed of a view reads back exactly when no admitted atom has a line break and no other text has
a line that is taken for the field. -/
theorem readsBack_spillContext :
    (spillContext context statement).ReadsBack "current_context" ↔ PrintsWhole context statement := by
  have hvalue : fieldValue "current_context" (spillContext context statement).rows =
      some (.text (joinStrings (lit " | ") (renderedTexts context statement))) := by
    obtain ⟨view, hview, -, hcurrent, -⟩ := executeSpillContext_rendered context statement
    obtain rfl := Option.some.inj ((executeSpillContext_eq context statement).symm.trans hview)
    exact hcurrent
  rw [readsBack_iff rfl (spillContext_rows context statement) hvalue (by decide +kernel)
    (fieldsBefore_plain context statement) (fieldsBehind_plain context statement), List.forall_mem_append,
    fieldsBefore_harmless_iff, fieldsBehind, List.forall_mem_append, List.forall_mem_map, List.forall_mem_map]
  constructor
  · rintro ⟨hcurrent, hgiven, hviews, hinvalidated⟩
    have hutf : ∀ bytes ∈ renderedTexts context statement, ∃ text, encodeUtf8 text = bytes :=
      fun bytes hbytes ↦ (hviews bytes hbytes).imp fun _ ↦ And.left
    exact ⟨(unbroken_joined_iff hutf).1 hcurrent, List.forall_mem_append.2 ⟨hgiven, hinvalidated⟩⟩
  · rintro ⟨hrendered, hothers⟩
    obtain ⟨hgiven, hinvalidated⟩ := List.forall_mem_append.1 hothers
    have hutf : ∀ bytes ∈ renderedTexts context statement, ∃ text, encodeUtf8 text = bytes :=
      fun bytes hbytes ↦ (hrendered bytes hbytes).imp fun _ ↦ And.left
    exact ⟨(unbroken_joined_iff hutf).2 hrendered, hgiven,
      fun bytes hbytes ↦ .of_unbroken (hrendered bytes hbytes), hinvalidated⟩

/-- For every context and query, the `current_context` of a spill reads back from what is printed exactly when
no admitted atom has a line break, and no other text has a line that is taken for the field. -/
theorem spillContext_readsBack_iff : ∃ view, executeSpillContext context statement = some view ∧
    (view.ReadsBack "current_context" ↔ PrintsWhole context statement) :=
  ⟨_, executeSpillContext_eq context statement, readsBack_spillContext context statement⟩

end Spill

/-- A question on two lines. -/
def twoLines : AppendMemoryStmt where
  context := lit "c"
  text := [97, 10, 98, 63]

/-- The atom of a question on two lines is cut at the end of the first. -/
theorem spillContext_not_readsBack :
    ¬∀ (name : Bytes) (statements : List ContextStatement) (query : ContextQueryStmt) (view : NativeQueryResult),
      executeSpillContext (runContext { name } statements) query = some view →
      view.ReadsBack "current_context" := by
  intro h
  have hread := h (lit "c") [.append twoLines] { context := lit "c" } _ (executeSpillContext_eq _ _)
  obtain ⟨hrendered, -⟩ := (readsBack_spillContext _ _).1 hread
  obtain ⟨question, hquestion, hbreak⟩ : ∃ question ∈
      renderedTexts (runContext { name := lit "c" } [.append twoLines]) { context := lit "c" }, 10 ∈ question := by
    decide +kernel
  obtain ⟨text, rfl, hunbroken⟩ := hrendered question hquestion
  obtain ⟨c, hc, hmem⟩ := List.mem_flatMap.1 hbreak
  obtain rfl : c = '\n' := (mem_utf8EncodeChar_iff (by decide)).1 hmem
  exact absurd (hunbroken _ hc) (by decide)

end SkibidiQL
