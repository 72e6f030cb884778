import SkibidiQL.CodeGen.GeneratedTrees

/-!
# The tokens of generated text

The text of an expression has the tokens that its parts have, with parentheses around every operation: no part runs
into the next, since each is followed by a space, a comma or a parenthesis, and no minus follows another.
-/

namespace SkibidiQL

open Bytes

namespace Sql

variable {reserved : Bytes → Bool} {text rest : Bytes} {read more : List SqlToken} {c : UInt8}

/-! ### Tokens in a row -/

/-- A text is read in one way. -/
theorem Lexes.unique (h : Lexes reserved text read) (h' : Lexes reserved text more) : read = more := by
  obtain ⟨N, hN⟩ := h
  obtain ⟨M, hM⟩ := h'
  exact Option.some.inj ((hN (max N M) (Nat.le_max_left _ _)).symm.trans (hM (max N M) (Nat.le_max_right _ _)))

theorem lexes_nil : Lexes reserved [] [] := by
  refine ⟨1, fun n hn ↦ ?_⟩
  obtain ⟨m, rfl⟩ : ∃ m, n = m + 1 := ⟨n - 1, by omega⟩
  rfl

theorem Lexes.space (h : Lexes reserved text read) : Lexes reserved (32 :: text) read := by
  obtain ⟨N, hN⟩ := h
  refine ⟨N, fun n hn ↦ ?_⟩
  rw [← hN n hn]
  cases n <;> rfl

/-- A token in front of others. -/
theorem Lexes.cons {token : SqlToken} (h : Lexes reserved rest more) (hblank : isBlank c = false)
    (htoken : readToken reserved c text = some (some token, rest)) : Lexes reserved (c :: text) (token :: more) := by
  obtain ⟨N, hN⟩ := h
  refine ⟨N + 1, fun n hn ↦ ?_⟩
  obtain ⟨m, rfl⟩ : ∃ m, n = m + 1 := ⟨n - 1, by omega⟩
  rw [tokens, List.dropWhile_cons_of_neg (by rw [hblank]; exact Bool.false_ne_true)]
  show (readToken reserved c text >>= _) = _
  rw [htoken]
  show (tokens reserved m rest >>= _) = _
  rw [hN m (by omega)]
  rfl

/-- A space, a comma or a closing parenthesis comes first, if anything does. -/
def Delimited (rest : Bytes) : Prop :=
  ∀ b ∈ rest.head?, b = 32 ∨ b = 44 ∨ b = 41

theorem Delimited.cons {b : UInt8} (h : b = 32 ∨ b = 44 ∨ b = 41) (rest : Bytes) : Delimited (b :: rest) := by
  rintro _ ⟨⟩
  exact h

/-- A byte of a kind that no delimiter is of does not come next. -/
theorem Delimited.stops (h : Delimited rest) {p : UInt8 → Bool} (hp : p 32 = false ∧ p 44 = false ∧ p 41 = false) :
    ∀ b ∈ rest.head?, p b = false := by
  intro b hb
  rcases h b hb with rfl | rfl | rfl
  · exact hp.1
  · exact hp.2.1
  · exact hp.2.2

/-! ### Marks and operators -/

theorem Lexes.lparen (h : Lexes reserved rest more) : Lexes reserved (40 :: rest) (.lparen :: more) :=
  h.cons rfl rfl

theorem Lexes.rparen (h : Lexes reserved rest more) : Lexes reserved (41 :: rest) (.rparen :: more) :=
  h.cons rfl rfl

theorem Lexes.comma (h : Lexes reserved rest more) : Lexes reserved (44 :: rest) (.comma :: more) :=
  h.cons rfl rfl

theorem Lexes.dot (h : Lexes reserved rest more) : Lexes reserved (46 :: rest) (.dot :: more) :=
  h.cons rfl rfl

theorem Lexes.star (h : Lexes reserved rest more) : Lexes reserved (42 :: rest) (.operator .mul :: more) :=
  h.cons rfl rfl

/-- A minus that does not open a comment. -/
theorem Lexes.minus (h : Lexes reserved rest more) (hminus : rest.head? ≠ some 45) :
    Lexes reserved (45 :: rest) (.operator .sub :: more) := by
  refine h.cons rfl ?_
  rw [readToken, if_neg (fun heq ↦ hminus heq.2)]
  rfl

/-! ### Words -/

/-- A word has a first byte that may begin one. -/
theorem isWord_cons (h : isWord text) : ∃ first word, text = first :: word ∧ isWordStart first ∧
    ∀ b ∈ first :: word, isWordByte b := by
  rw [isWord, Bool.and_eq_true, List.all_eq_true] at h
  cases text with
  | nil => cases h.1
  | cons first word => exact ⟨first, word, rfl, h.1, h.2⟩

/-- No digit, sign or blank begins a word. -/
theorem le_of_isWordStart {b : UInt8} (h : isWordStart b) : 65 ≤ b := by
  simp only [isWordStart, Bool.or_eq_true, Bool.and_eq_true, decide_eq_true_eq, beq_iff_eq] at h
  rcases h with (⟨h, -⟩ | ⟨h, -⟩) | rfl
  · exact h
  · exact UInt8.le_trans (by decide) h
  · decide

/-- A word does not start as white space, a comment, a string or a number does. -/
theorem isWordStart_spec {b : UInt8} (h : isWordStart b) :
    isBlank b = false ∧ b ≠ 45 ∧ b ≠ 47 ∧ b ≠ 39 ∧ isDigit b = false := by
  have hlow := le_of_isWordStart h
  have hne (c : UInt8) (hc : ¬65 ≤ c) : b ≠ c := fun heq ↦ hc (heq ▸ hlow)
  refine ⟨?_, hne 45 (by decide), hne 47 (by decide), hne 39 (by decide), ?_⟩
  · simp only [isBlank, Bool.or_eq_false_iff, beq_eq_false_iff_ne]
    exact ⟨⟨⟨⟨hne 32 (by decide), hne 9 (by decide)⟩, hne 10 (by decide)⟩, hne 12 (by decide)⟩, hne 13 (by decide)⟩
  · rw [isDigit, Bool.and_eq_false_iff, decide_eq_false_iff_not, decide_eq_false_iff_not]
    exact .inr fun hhigh ↦ absurd (UInt8.le_trans hlow hhigh) (by decide)

/-- A word is read whole where no word byte follows it. -/
theorem Lexes.word (h : Lexes reserved rest more) (hword : isWord text) (hstop : ∀ b ∈ rest.head?, isWordByte b = false) :
    Lexes reserved (text ++ rest) (wordToken reserved text :: more) := by
  obtain ⟨first, word, rfl, hstart, hbytes⟩ := isWord_cons hword
  obtain ⟨hblank, hminus, hslash, hquote, hdigit⟩ := isWordStart_spec hstart
  have hread : readWord reserved (first :: word ++ rest) = (wordToken reserved (first :: word), rest) := by
    rw [readWord, takeWhile_append_stop hbytes hstop, List.drop_left]
  have htoken : readToken reserved first (word ++ rest) = some (some (wordToken reserved (first :: word)), rest) := by
    rw [readToken, if_neg (fun heq ↦ hminus heq.1), if_neg (fun heq ↦ hslash heq.1), if_neg hquote, hdigit,
      if_neg Bool.false_ne_true, if_pos hstart, ← List.cons_append, hread]
  exact h.cons hblank htoken

/-! ### Strings -/

/-- A quoted string ends at its closing quote, whatever it holds. -/
theorem stringBody_quotedBody (value : Bytes) (hstop : rest.head? ≠ some 39) :
    stringBody (quotedBody value ++ 39 :: rest) = some (value, rest) := by
  induction value with
  | nil =>
    show stringBody (39 :: rest) = _
    unfold stringBody
    rw [if_pos rfl]
    split
    · exact absurd rfl hstop
    · rfl
  | cons c value ih =>
    rw [show quotedBody (c :: value) = (if c = 39 then [39, 39] else [c]) ++ quotedBody value from rfl]
    split
    · rename_i hquote
      show stringBody (39 :: 39 :: (quotedBody value ++ 39 :: rest)) = _
      rw [stringBody, if_pos rfl, ih, hquote]
      rfl
    · rename_i hquote
      show stringBody (c :: (quotedBody value ++ 39 :: rest)) = _
      unfold stringBody
      rw [if_neg hquote, ih]
      rfl

/-- A quoted string is read back where no quote follows it. -/
theorem Lexes.string (h : Lexes reserved rest more) (value : Bytes) (hstop : rest.head? ≠ some 39) :
    Lexes reserved (quoteString value ++ rest) (.string value :: more) := by
  rw [show quoteString value ++ rest = 39 :: (quotedBody value ++ [39] ++ rest) from rfl, List.append_assoc]
  refine h.cons rfl ?_
  show (stringBody (quotedBody value ++ 39 :: rest)).map _ = _
  rw [stringBody_quotedBody value hstop]
  rfl

/-! ### Numbers -/

/-- What follows an exponent or stands in its place is neither a digit nor a point. -/
theorem head_exponent_append {exponent : Bytes} (hexponent : IsExponent exponent) (hrest : Delimited rest)
    {p : UInt8 → Bool} (hp : p 101 = false) (hp' : p 32 = false ∧ p 44 = false ∧ p 41 = false) :
    ∀ b ∈ (exponent ++ rest).head?, p b = false := by
  rcases hexponent with rfl | ⟨sign, digits, rfl, -⟩
  · exact hrest.stops hp'
  · rintro _ ⟨⟩
    exact hp

/-- The digits behind a point are read whole. -/
theorem fractionText_pointed {fraction exponent : Bytes} (hfraction : ∀ b ∈ fraction, isDigit b)
    (hexponent : IsExponent exponent) (hrest : Delimited rest) :
    fractionText (pointed fraction ++ (exponent ++ rest)) = pointed fraction := by
  rw [pointed]
  split
  · have hpoint := head_exponent_append (p := (· == 46)) hexponent hrest (by decide) (by decide)
    exact if_neg fun heq ↦ absurd (hpoint 46 heq) (by decide)
  · rw [fractionText, List.cons_append, if_pos List.head?_cons]
    exact congrArg (46 :: ·)
      (takeWhile_append_stop hfraction (head_exponent_append hexponent hrest (by decide) (by decide)))

/-- An exponent is read whole. -/
theorem exponentText_append {exponent : Bytes} (hexponent : IsExponent exponent) (hrest : Delimited rest) :
    exponentText (exponent ++ rest) = exponent := by
  rcases hexponent with rfl | ⟨sign, digits, rfl, hsign, hne, hdigits⟩
  · have he := hrest.stops (p := fun b ↦ b == 101 || b == 69) (by decide)
    refine if_neg fun heq ↦ ?_
    rcases heq with heq | heq
    · exact absurd (he 101 heq) (by decide)
    · exact absurd (he 69 heq) (by decide)
  · have hsignText : signText (sign :: (digits ++ rest)) = [sign] := by
      rw [signText, List.head?_cons, if_pos]
      · rfl
      · exact hsign.imp (congrArg some) (congrArg some)
    have hread : (((101 : UInt8) :: sign :: digits ++ rest).drop (1 + [sign].length)).takeWhile isDigit = digits :=
      takeWhile_append_stop hdigits (hrest.stops (by decide))
    rw [exponentText, if_pos (.inl rfl)]
    dsimp only
    rw [show ((101 : UInt8) :: sign :: digits ++ rest).drop 1 = sign :: (digits ++ rest) from rfl, hsignText, hread,
      if_neg (by rw [List.isEmpty_iff]; exact hne)]
    rfl

/-- A numeral of three parts is read as an integer when it has neither a fraction nor an exponent. -/
theorem readNumber_parts {whole fraction exponent : Bytes} (hwhole : ∀ b ∈ whole, isDigit b)
    (hfraction : ∀ b ∈ fraction, isDigit b) (hexponent : IsExponent exponent) (hrest : Delimited rest) :
    readNumber (whole ++ pointed fraction ++ exponent ++ rest) =
      some (if fraction = [] ∧ exponent = [] then .integer (digitsValue whole)
        else .real (nearestBits (numeralValue (whole ++ pointed fraction ++ exponent))), rest) := by
  have hhead : ∀ b ∈ (pointed fraction ++ (exponent ++ rest)).head?, isDigit b = false := by
    rw [pointed]
    split
    · exact head_exponent_append hexponent hrest (by decide) (by decide)
    · rintro _ ⟨⟩
      rfl
  have htake : (whole ++ pointed fraction ++ exponent ++ rest).takeWhile isDigit = whole := by
    rw [List.append_assoc, List.append_assoc]
    exact takeWhile_append_stop hwhole hhead
  have hfractionText : fractionText ((whole ++ pointed fraction ++ exponent ++ rest).drop whole.length) =
      pointed fraction := by
    rw [List.append_assoc, List.append_assoc, List.drop_left]
    exact fractionText_pointed hfraction hexponent hrest
  have hexponentText : exponentText ((whole ++ pointed fraction ++ exponent ++ rest).drop
      (whole ++ pointed fraction).length) = exponent := by
    rw [List.append_assoc _ exponent, List.drop_left]
    exact exponentText_append hexponent hrest
  -- A word byte behind the numeral would make it malformed, and a delimiter is none.
  have hend : rest.head?.any isWordByte = false := by
    have hstop := hrest.stops (p := isWordByte) (by decide)
    cases hfirst : rest.head? with
    | none => rfl
    | some b => exact hstop b hfirst
  have hempty : (pointed fraction).isEmpty = true ↔ fraction = [] := by
    rw [List.isEmpty_iff, pointed]
    split
    · rename_i h
      exact ⟨fun _ ↦ h, fun _ ↦ rfl⟩
    · rename_i h
      exact iff_of_false (List.cons_ne_nil _ _) h
  rw [readNumber, htake, hfractionText, hexponentText, List.drop_left, hend, if_neg Bool.false_ne_true]
  simp only [Bool.and_eq_true, hempty, List.isEmpty_iff]
  split <;> rfl

/-- Digits are neither blanks nor marks. -/
theorem isDigit_spec {b : UInt8} (h : isDigit b) : isBlank b = false ∧ b ≠ 45 ∧ b ≠ 47 ∧ b ≠ 39 := by
  rw [isDigit, Bool.and_eq_true, decide_eq_true_eq, decide_eq_true_eq] at h
  have hne (c : UInt8) (hc : ¬48 ≤ c) : b ≠ c := fun heq ↦ hc (heq ▸ h.1)
  refine ⟨?_, hne 45 (by decide), hne 47 (by decide), hne 39 (by decide)⟩
  simp only [isBlank, Bool.or_eq_false_iff, beq_eq_false_iff_ne]
  exact ⟨⟨⟨⟨hne 32 (by decide), hne 9 (by decide)⟩, hne 10 (by decide)⟩, hne 12 (by decide)⟩, hne 13 (by decide)⟩

/-- A numeral is read whole, as an integer when it has neither a fraction nor an exponent. -/
theorem Lexes.parts {whole fraction exponent : Bytes} (h : Lexes reserved rest more) (hrest : Delimited rest)
    (hne : whole ≠ []) (hwhole : ∀ b ∈ whole, isDigit b) (hfraction : ∀ b ∈ fraction, isDigit b)
    (hexponent : IsExponent exponent) :
    Lexes reserved (whole ++ pointed fraction ++ exponent ++ rest)
      ((if fraction = [] ∧ exponent = [] then .integer (digitsValue whole)
        else .real (nearestBits (numeralValue (whole ++ pointed fraction ++ exponent)))) :: more) := by
  have hread := readNumber_parts hwhole hfraction hexponent hrest
  obtain ⟨first, digits, rfl⟩ := List.exists_cons_of_ne_nil hne
  have hdigit := hwhole first List.mem_cons_self
  obtain ⟨hblank, hminus, hslash, hquote⟩ := isDigit_spec hdigit
  refine @Lexes.cons reserved (digits ++ pointed fraction ++ exponent ++ rest) rest more first _ h hblank ?_
  rw [readToken, if_neg (fun heq ↦ hminus heq.1), if_neg (fun heq ↦ hslash heq.1), if_neg hquote, if_pos hdigit]
  show (readNumber (first :: digits ++ pointed fraction ++ exponent ++ rest)).map _ = _
  rw [hread]
  rfl

theorem Lexes.integer (h : Lexes reserved rest more) (hrest : Delimited rest) (n : ℕ) :
    Lexes reserved (ofNat n ++ rest) (.integer n :: more) := by
  have hread := h.parts hrest (ofNat_ne_nil n) (isDigit_ofNat n) (List.forall_mem_nil _) (.inl rfl)
  rwa [if_pos ⟨rfl, rfl⟩, digitsValue_ofNat, show pointed [] = [] from rfl, List.append_nil, List.append_nil] at hread

/-- What a numeral with the value is read as. -/
def numeralToken (value : ℚ) : SqlToken :=
  if StreamText.isSmallWhole value then .integer ⌊value⌋₊ else .real (nearestBits value)

/-- A numeral is read as its value. -/
theorem Lexes.numeral {value : ℚ} (h : Lexes reserved rest more) (hrest : Delimited rest)
    (hnumeral : StreamText.IsNumeral text value) : Lexes reserved (text ++ rest) (numeralToken value :: more) := by
  obtain ⟨whole, fraction, exponent, rfl, hne, hwhole, hfraction, hexponent, hvalue, hsmall⟩ := hnumeral
  have hread := h.parts hrest hne hwhole hfraction hexponent
  rw [numeralValue_parts hwhole hfraction hexponent, hvalue] at hread
  rw [numeralToken]
  by_cases hwholeNumber : fraction = [] ∧ exponent = []
  · obtain ⟨rfl, rfl⟩ := hwholeNumber
    have hfloor : ⌊value⌋₊ = digitsValue whole := by
      rw [← hvalue, List.append_nil, show exponentValue [] = 0 from rfl]
      show ⌊(digitsValue whole : ℚ) * 10 ^ (0 : ℤ)⌋₊ = _
      rw [zpow_zero, mul_one, Nat.floor_natCast]
    rw [if_pos ⟨rfl, rfl⟩] at hread
    rwa [if_pos (hsmall.1 ⟨rfl, rfl⟩), hfloor]
  · rw [if_neg hwholeNumber] at hread
    rwa [if_neg fun h ↦ hwholeNumber (hsmall.2 h)]

/-- What the text of a double without its sign is read as. -/
def magnitudeToken (reserved : Bytes → Bool) (bits : ℕ) : SqlToken :=
  if 2047 * 2 ^ 52 < bits then wordToken reserved (lit "nan")
  else if bits = 2047 * 2 ^ 52 then wordToken reserved (lit "inf")
  else numeralToken (StreamText.textValue bits)

/-- The numeral of a double is one token. -/
theorem Lexes.magnitude (h : Lexes reserved rest more) (hrest : Delimited rest) (bits : ℕ) :
    Lexes reserved (StreamText.ofMagnitude bits ++ rest) (magnitudeToken reserved bits :: more) := by
  rw [magnitudeToken]
  split
  · rename_i hnan
    rw [StreamText.ofMagnitude, if_pos hnan]
    exact h.word (by decide) (hrest.stops (by decide))
  · rename_i hnan
    split
    · rename_i hinf
      rw [StreamText.ofMagnitude, if_neg hnan, if_pos hinf]
      exact h.word (by decide) (hrest.stops (by decide))
    · rename_i hinf
      exact h.numeral hrest (StreamText.isNumeral_ofMagnitude (by omega))

end Sql

/-! ### The tokens of an expression -/

open Sql

section Tokens

variable (reserved : Bytes → Bool)

/-- A minus, when there is one. -/
def signTokens (negative : Bool) : List SqlToken :=
  if negative then [.operator .sub] else []

/-- The tokens of a literal. -/
def Literal.sqlTokens : Literal → List SqlToken
  | .int value => signTokens (value.toInt < 0) ++ [.integer value.toInt.natAbs]
  | .float bits => signTokens (signBit bits) ++ [magnitudeToken reserved (unsignedBits bits)]
  | .string value => [.string value]
  | .nul => [.null]
  | .bool value => [.integer (if value then 1 else 0)]

/-- The tokens of a name: one word, or two with a point or a hyphen between them. -/
def nameTokens (name : Bytes) : List SqlToken :=
  let word := name.takeWhile isWordByte
  match name.drop word.length with
  | [] => [wordToken reserved word]
  | mark :: second =>
    [wordToken reserved word, if mark = 46 then .dot else .operator .sub, wordToken reserved second]

mutual

/-- The tokens of an expression. -/
def Expr.sqlTokens : Expr → List SqlToken
  | .literal value => value.sqlTokens reserved
  | .column column => nameTokens reserved (qualifiedName column.table column.column)
  | .wildcard _ => [.operator .mul]
  | .binary op left right _ => .lparen :: (left.sqlTokens ++ .operator op :: (right.sqlTokens ++ [.rparen]))
  | .unary op operand _ =>
    .lparen :: (if op = .not then .not else .operator .sub) :: (operand.sqlTokens ++ [.rparen])
  | .function name args distinct _ =>
    nameTokens reserved (sqlFunctionName name) ++
      .lparen :: ((if distinct then [.distinct] else []) ++ ((argTokens args).tail ++ [.rparen]))
  | .window .. | .subquery => []

/-- The tokens of the arguments of a function, each behind a comma. -/
def argTokens : List Expr → List SqlToken
  | [] => []
  | arg :: args => .comma :: (arg.sqlTokens ++ argTokens args)

end

end Tokens

variable {reserved : Bytes → Bool} {rest : Bytes} {more : List SqlToken}

/-! ### Names -/

/-- A name is one word, or two with a point or a hyphen between them. -/
def IsName (name : Bytes) : Prop :=
  isWord name ∨ ∃ first mark second, isWord first ∧ isWord second ∧ (mark = 46 ∨ mark = 45) ∧
    name = first ++ mark :: second

/-- A function has a name in the SQL that is written. -/
theorem isName_sqlFunctionName {name : Bytes} (h : FunctionName name) : IsName (sqlFunctionName name) := by
  cases h with
  | keyword hkeyword =>
    simp only [hyphenatedFunctions, List.mem_cons, List.not_mem_nil, or_false] at hkeyword
    rcases hkeyword with rfl | rfl | rfl | rfl | rfl | rfl
    · exact .inl (by decide)
    · exact .inl (by decide)
    · exact .inr ⟨lit "mid", 45, lit "fr", by decide, by decide, .inr rfl, by decide⟩
    · exact .inr ⟨lit "percent", 45, lit "check", by decide, by decide, .inr rfl, by decide⟩
    · exact .inr ⟨lit "biggest", 45, lit "W", by decide, by decide, .inr rfl, by decide⟩
    · exact .inr ⟨lit "biggest", 45, lit "L", by decide, by decide, .inr rfl, by decide⟩
  | word hword =>
    rw [sqlFunctionName]
    split_ifs
    all_goals exact .inl (by first | decide | exact hword)
  | @qualified qualifier word hqualifier hword =>
    rw [sqlFunctionName]
    split_ifs
    iterate 6 exact .inl (by decide)
    exact .inr ⟨qualifier, 46, word, hqualifier, hword, .inl rfl, List.append_assoc _ _ _⟩

/-- A table and a column make a name. -/
theorem isName_qualified {table name : Bytes} (htable : isWord table) (hname : isWord name) :
    IsName (qualifiedName table name) := by
  obtain ⟨first, word, rfl, -⟩ := isWord_cons htable
  exact .inr ⟨_, 46, name, htable, hname, .inl rfl, List.append_assoc _ _ _⟩

theorem nameTokens_word {name : Bytes} (h : isWord name) : nameTokens reserved name = [wordToken reserved name] := by
  obtain ⟨first, word, rfl, -, hbytes⟩ := isWord_cons h
  rw [nameTokens, List.takeWhile_eq_self_iff.2 hbytes, List.drop_length]

/-- A name with a mark is two words and the mark. -/
theorem nameTokens_marked {first second : Bytes} {mark : UInt8} (h : isWord first) (hmark : mark = 46 ∨ mark = 45) :
    nameTokens reserved (first ++ mark :: second) =
      [wordToken reserved first, if mark = 46 then .dot else .operator .sub, wordToken reserved second] := by
  obtain ⟨b, word, rfl, -, hbytes⟩ := isWord_cons h
  have hstop : ∀ b ∈ (mark :: second).head?, isWordByte b = false := by
    rintro _ ⟨⟩
    rcases hmark with rfl | rfl <;> rfl
  rw [nameTokens, takeWhile_append_stop hbytes hstop, List.drop_left]

theorem isWord_head_ne_minus {word : Bytes} (h : isWord word) : (word ++ rest).head? ≠ some 45 := by
  obtain ⟨first, word, rfl, hstart, -⟩ := isWord_cons h
  exact fun heq ↦ (isWordStart_spec hstart).2.1 (Option.some.inj heq)

/-- A name is read as its tokens. -/
theorem Sql.Lexes.name {name : Bytes} (h : Lexes reserved rest more) (hname : IsName name)
    (hstop : ∀ b ∈ rest.head?, isWordByte b = false) :
    Lexes reserved (name ++ rest) (nameTokens reserved name ++ more) := by
  rcases hname with hword | ⟨first, mark, second, hfirst, hsecond, hmark, rfl⟩
  · rw [nameTokens_word hword]
    exact h.word hword hstop
  · have hbehind := h.word hsecond hstop
    have hwordStop : ∀ b ∈ (mark :: (second ++ rest)).head?, isWordByte b = false := by
      rintro _ ⟨⟩
      rcases hmark with rfl | rfl <;> rfl
    rw [nameTokens_marked hfirst hmark, List.append_assoc]
    rcases hmark with rfl | rfl
    · exact hbehind.dot.word hfirst hwordStop
    · exact (hbehind.minus (isWord_head_ne_minus hsecond)).word hfirst hwordStop

/-! ### Literals -/

/-- Digits do not begin with a minus. -/
theorem head_digits_ne_minus {digits : Bytes} (hne : digits ≠ []) (h : ∀ b ∈ digits, isDigit b) :
    (digits ++ rest).head? ≠ some 45 := by
  obtain ⟨first, digits, rfl⟩ := List.exists_cons_of_ne_nil hne
  exact fun heq ↦ (isDigit_spec (h first List.mem_cons_self)).2.1 (Option.some.inj heq)

/-- The numeral of a magnitude does not begin with a minus. -/
theorem head_ofMagnitude_ne_minus (bits : ℕ) : (StreamText.ofMagnitude bits ++ rest).head? ≠ some 45 := by
  rcases lt_or_ge bits (2047 * 2 ^ 52) with hfinite | hlarge
  · obtain ⟨whole, fraction, exponent, heq, hne, hwhole, -⟩ := StreamText.isNumeral_ofMagnitude hfinite
    rw [heq, List.append_assoc, List.append_assoc]
    exact head_digits_ne_minus hne hwhole
  · rw [StreamText.ofMagnitude]
    split
    · exact fun heq ↦ absurd (Option.some.inj heq) (by decide)
    · rw [if_pos (by omega)]
      exact fun heq ↦ absurd (Option.some.inj heq) (by decide)

/-- A minus sign in front of a number that has none itself. -/
theorem Sql.Lexes.sign {text : Bytes} {token : SqlToken} (h : Lexes reserved text (token :: more))
    (hminus : text.head? ≠ some 45) (negative : Bool) :
    Lexes reserved ((if negative then [45] else []) ++ text) (signTokens negative ++ token :: more) := by
  cases negative with
  | false => exact h
  | true => exact h.minus hminus

/-- An integer is its sign and its magnitude. -/
theorem ofInt_eq (value : ℤ) : ofInt value = (if value < 0 then [45] else []) ++ ofNat value.natAbs := by
  cases value with
  | ofNat n => rfl
  | negSucc n =>
    rw [if_pos (Int.negSucc_lt_zero n)]
    rfl

/-- The text of a literal is read as its tokens. -/
theorem Sql.Lexes.literal (h : Lexes reserved rest more) (hrest : Delimited rest) (value : Literal) :
    Lexes reserved (genLiteral value ++ rest) (value.sqlTokens reserved ++ more) := by
  cases value with
  | int value =>
    have hread := (h.integer hrest value.toInt.natAbs).sign
      (head_digits_ne_minus (ofNat_ne_nil _) (isDigit_ofNat _)) (value.toInt < 0)
    simp only [decide_eq_true_eq] at hread
    rw [genLiteral, ofInt_eq, List.append_assoc, Literal.sqlTokens, List.append_assoc]
    exact hread
  | float bits =>
    have hread := (h.magnitude hrest (unsignedBits bits)).sign (head_ofMagnitude_ne_minus _) (signBit bits)
    rw [genLiteral, streamText, List.append_assoc, Literal.sqlTokens, List.append_assoc]
    exact hread
  | string value =>
    exact h.string value fun heq ↦ by
      rcases hrest 39 heq with h | h | h <;> cases h
  | nul =>
    have hnull : isWord (lit "NULL") := by decide
    exact h.word hnull (hrest.stops (by decide))
  | bool value =>
    cases value with
    | false => exact h.integer hrest 0
    | true => exact h.integer hrest 1

/-! ### Operators -/

/-- The text of an operator is read as the operator. -/
theorem Sql.Lexes.operator (h : Lexes reserved rest more) {op : BinaryOperator} (hop : op.isKnown) :
    Lexes reserved (op.text ++ 32 :: rest) (.operator op :: more) := by
  have hspace := h.space
  have hstop : ∀ b ∈ (32 :: rest).head?, isWordByte b = false := by
    rintro _ ⟨⟩
    rfl
  cases op with
  | and => exact hspace.word (show isWord BinaryOperator.and.text by decide) hstop
  | or => exact hspace.word (show isWord BinaryOperator.or.text by decide) hstop
  | sub => exact hspace.minus fun heq ↦ absurd (Option.some.inj heq) (by decide)
  | other => cases hop
  | _ => exact hspace.cons rfl rfl

/-! ### Expressions -/

/-- Behind the text of an expression, whatever is delimited has the tokens it has. -/
def LexesBefore (reserved : Bytes → Bool) (text : Bytes) (read : List SqlToken) : Prop :=
  ∀ rest more, Delimited rest → Lexes reserved rest more → Lexes reserved (text ++ rest) (read ++ more)

variable {genSelect : Bytes} {args : List Expr}

/-- Joined texts are the texts each behind a separator, less the first separator. -/
theorem joinStrings_eq_drop (separator : Bytes) (parts : List Bytes) :
    joinStrings separator parts = (parts.flatMap (separator ++ ·)).drop separator.length := by
  induction parts with
  | nil => exact (List.drop_nil).symm
  | cons part parts ih =>
    rw [List.flatMap_cons, List.append_assoc, List.drop_left]
    cases parts with
    | nil => exact (List.append_nil part).symm
    | cons next parts =>
      rw [joinStrings, ih, List.flatMap_cons, List.append_assoc, List.append_assoc, List.drop_left]
      exact List.cons_ne_nil next parts

/-- The arguments of a function, each behind a comma. -/
theorem lexes_args (h : ∀ arg ∈ args, LexesBefore reserved (genExpr genSelect arg) (arg.sqlTokens reserved))
    (hrest : Lexes reserved rest more) :
    Delimited ((genArgs genSelect args).flatMap (lit ", " ++ ·) ++ 41 :: rest) ∧
      Lexes reserved ((genArgs genSelect args).flatMap (lit ", " ++ ·) ++ 41 :: rest)
        (argTokens reserved args ++ .rparen :: more) := by
  induction args with
  | nil => exact ⟨.cons (.inr (.inr rfl)) rest, hrest.rparen⟩
  | cons arg args ih =>
    obtain ⟨hdelimited, hlexes⟩ := ih fun arg harg ↦ h arg (List.mem_cons_of_mem _ harg)
    refine ⟨.cons (.inr (.inl rfl)) _, ?_⟩
    have harg := (h arg List.mem_cons_self _ _ hdelimited hlexes).space.comma
    rw [genArgs, List.flatMap_cons, argTokens, List.append_assoc, List.append_assoc, List.cons_append, List.append_assoc]
    exact harg

/-- Joined arguments are read one after the other. -/
theorem lexes_joined (h : ∀ arg ∈ args, LexesBefore reserved (genExpr genSelect arg) (arg.sqlTokens reserved))
    (hrest : Lexes reserved rest more) :
    Lexes reserved (joinStrings (lit ", ") (genArgs genSelect args) ++ 41 :: rest)
      ((argTokens reserved args).tail ++ .rparen :: more) := by
  cases args with
  | nil => exact hrest.rparen
  | cons arg args =>
    obtain ⟨hdelimited, hlexes⟩ := lexes_args (fun arg harg ↦ h arg (List.mem_cons_of_mem _ harg)) hrest
    rw [joinStrings_eq_drop, genArgs, List.flatMap_cons, List.append_assoc, List.drop_left, argTokens, List.tail_cons,
      List.append_assoc, List.append_assoc]
    exact h arg List.mem_cons_self _ _ hdelimited hlexes

/-- A text without a minus sign does not start with one. -/
theorem head_genExpr_ne_minus {e : Expr} (h : e.Generated) (hsigned : e.isSigned = false) :
    (genExpr genSelect e ++ rest).head? ≠ some 45 := by
  have hother {b : UInt8} (hb : b ≠ 45) (text : Bytes) : (b :: text).head? ≠ some 45 := fun heq ↦
    hb (Option.some.inj heq)
  have hname {name : Bytes} (h : IsName name) (text : Bytes) : (name ++ text).head? ≠ some 45 := by
    rcases h with hword | ⟨first, mark, second, hfirst, -, -, rfl⟩
    · exact isWord_head_ne_minus hword
    · rw [List.append_assoc]
      exact isWord_head_ne_minus hfirst
  cases h with
  | literal value =>
    rw [genExpr]
    cases value with
    | int value =>
      have hsigned : ¬value.toInt < 0 := of_decide_eq_false hsigned
      rw [genLiteral, ofInt_eq, if_neg hsigned]
      exact head_digits_ne_minus (ofNat_ne_nil _) (isDigit_ofNat _)
    | float bits =>
      have hsigned : signBit bits = false := hsigned
      rw [genLiteral, streamText, hsigned, if_neg Bool.false_ne_true]
      exact head_ofMagnitude_ne_minus _
    | string value => exact hother (by decide) _
    | nul => exact hother (by decide) _
    | bool value => cases value <;> exact hother (by decide) _
  | column hword => exact isWord_head_ne_minus hword
  | qualified htable hword => exact hname (isName_qualified htable hword) rest
  | binary | not | neg =>
    rw [genExpr]
    exact hother (by decide) _
  | call hfunction | callAll hfunction =>
    rw [genExpr]
    simp only [List.append_assoc]
    exact hname (isName_sqlFunctionName hfunction) _

/-- The text of an expression has the tokens of the expression. -/
theorem lexes_genExpr {e : Expr} (h : e.Generated) :
    LexesBefore reserved (genExpr genSelect e) (e.sqlTokens reserved) := by
  -- The text is read from the back: whether a word ends is seen by what stands behind it.
  induction h with
  | literal value => exact fun rest more hrest hmore ↦ hmore.literal hrest value
  | column hword =>
    intro rest more hrest hmore
    exact hmore.name (.inl hword) (hrest.stops (by decide))
  | qualified htable hword =>
    intro rest more hrest hmore
    exact hmore.name (isName_qualified htable hword) (hrest.stops (by decide))
  | @binary op left right alias' hop _ _ ihleft ihright =>
    intro rest more hrest hmore
    have hright := ihright _ _ (.cons (.inr (.inr rfl)) rest) hmore.rparen
    have hleft := ihleft _ _ (.cons (.inl rfl) _) (hright.operator hop).space
    rw [genExpr, Expr.sqlTokens]
    simp only [List.append_assoc, List.cons_append, List.nil_append]
    exact hleft.lparen
  | not _ ih =>
    intro rest more hrest hmore
    have hoperand := (ih _ _ (.cons (.inr (.inr rfl)) rest) hmore.rparen).space
    have hword : isWord (lit "NOT") := by decide
    have hnot := hoperand.word hword (by rintro _ ⟨⟩; rfl)
    rw [genExpr, Expr.sqlTokens]
    simp only [List.append_assoc, List.cons_append, List.nil_append]
    exact hnot.lparen
  | neg hoperand hsigned ih =>
    intro rest more hrest hmore
    have hread := ih _ _ (.cons (.inr (.inr rfl)) rest) hmore.rparen
    -- Two minus signs in a row would open a comment.
    have hminus := hread.minus (head_genExpr_ne_minus hoperand hsigned)
    rw [genExpr, Expr.sqlTokens]
    simp only [List.append_assoc, List.cons_append, List.nil_append]
    exact hminus.lparen
  | @call name args distinct alias' hname _ _ ih =>
    intro rest more hrest hmore
    have hargs := lexes_joined ih hmore
    have hdistinct : Lexes reserved
        ((if distinct then lit "DISTINCT " else []) ++ (joinStrings (lit ", ") (genArgs genSelect args) ++ 41 :: rest))
        ((if distinct then [.distinct] else []) ++ ((argTokens reserved args).tail ++ .rparen :: more)) := by
      cases distinct with
      | false => exact hargs
      | true =>
        have hword : isWord (lit "DISTINCT") := by decide
        exact hargs.space.word hword (by rintro _ ⟨⟩; rfl)
    have hread := hdistinct.lparen.name (isName_sqlFunctionName hname) (by rintro _ ⟨⟩; rfl)
    rw [genExpr, Expr.sqlTokens]
    simp only [List.append_assoc, List.cons_append, List.nil_append]
    exact hread
  | @callAll name alias' hname =>
    intro rest more hrest hmore
    have hread := hmore.rparen.star.lparen.name (isName_sqlFunctionName hname) (by rintro _ ⟨⟩; rfl)
    rw [genExpr, Expr.sqlTokens]
    simp only [List.append_assoc]
    exact hread

end SkibidiQL
