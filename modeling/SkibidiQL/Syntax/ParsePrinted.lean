import SkibidiQL.Syntax.ExpressionPrinter

/-!
# Printed expressions are parsed back

Whatever stands behind it that goes on with no expression, a printed expression is read by `parseExpr` to its end and
no further, and it is the same expression. An expression is understood at every grade it may be printed at
(`Understood`): the parser of the grade reads it, and the loop over the operators of a grade goes on from it.
-/

namespace SkibidiQL

open Bytes

/-! ### Tokens in a row -/

/-- From one state of the parser to the other stand tokens with these symbols. -/
def Shows : List Symbol → Parser → Parser → Prop
  | [], s, t => s = t
  | symbol :: symbols, s, t => s.current.symbol = symbol ∧ Shows symbols s.advance t

/-- The parser in front of these tokens and of those of another. -/
def Parser.behind (rest : Parser) : List Token → Parser
  | [] => rest
  | token :: tokens => ⟨token, (rest.behind tokens).current :: (rest.behind tokens).following⟩

variable {s t u : Parser} {symbols back : List Symbol}

/-- The tokens put before a parser are shown. -/
theorem shows_behind (rest : Parser) (tokens : List Token) :
    Shows (tokens.map Token.symbol) (rest.behind tokens) rest := by
  induction tokens with
  | nil => rfl
  | cons token tokens ih => exact ⟨rfl, ih⟩

/-- Symbols are shown one list after the other. -/
theorem shows_append : Shows (symbols ++ back) s t ↔ ∃ u, Shows symbols s u ∧ Shows back u t := by
  induction symbols generalizing s with
  | nil => exact ⟨fun h ↦ ⟨s, rfl, h⟩, fun ⟨_, heq, h⟩ ↦ heq ▸ h⟩
  | cons symbol symbols ih =>
    show _ ∧ Shows (symbols ++ back) s.advance t ↔ _
    rw [ih]
    exact ⟨fun ⟨hsymbol, u, hu, h⟩ ↦ ⟨u, ⟨hsymbol, hu⟩, h⟩, fun ⟨u, ⟨hsymbol, hu⟩, h⟩ ↦ ⟨hsymbol, u, hu, h⟩⟩

/-- The token is of this type, and of no other. -/
theorem check_of_type {type : TokenType} (h : s.current.type = type) (other : TokenType) :
    s.check other = decide (type = other) := by
  rw [Parser.check, h]

theorem expect_of_type {type : TokenType} (h : s.current.type = type) (message : Bytes) :
    s.expect type message = .ok (s.current, s.advance) := by
  rw [Parser.expect, check_of_type h, decide_eq_true rfl, if_pos rfl]

/-! ### What goes on with an expression -/

/-- The grade of the binary operators of a type. -/
def TokenType.grade? : TokenType → Option ℕ
  | .orNah => some 0
  | .plus => some 1
  | .eq | .neq | .lt | .gt | .lte | .gte => some 3
  | .plusOp | .minus | .concat => some 4
  | .star | .slash => some 5
  | _ => none

/-- Nothing here goes on with an expression at a grade: no operator of it or of a tighter one, and neither a point
nor a parenthesis, which go on with a name. -/
structure Stops (c : ℕ) (t : Parser) : Prop where
  grade : ∀ grade, t.current.type.grade? = some grade → grade < c
  dot : t.current.type ≠ .dot
  lparen : t.current.type ≠ .lparen

theorem Stops.mono {c p : ℕ} (h : Stops c t) (hcp : c ≤ p) : Stops p t :=
  ⟨fun grade hgrade ↦ (h.grade grade hgrade).trans_le hcp, h.dot, h.lparen⟩

/-- The tokens that an expression may start with, where it stands at a grade. -/
def TokenType.starts (c : ℕ) : TokenType → Bool
  | .integerLit | .floatLit | .stringLit | .ghosted | .lparen | .identifier => true
  | .noCapNot => c ≤ 2
  | .minus => c ≤ 6
  | type => type.isFunction

theorem TokenType.starts_mono {c p : ℕ} (hcp : c ≤ p) {type : TokenType} (h : type.starts p) : type.starts c := by
  cases type <;> simp only [starts, decide_eq_true_eq] at h ⊢ <;> first | exact h | omega

/-- No operator of the list stands here. -/
theorem operatorAt_eq_none {types : List TokenType} (h : t.current.type ∉ types) : operatorAt types t = none := by
  rw [operatorAt, if_neg]
  rw [List.any_eq_true]
  rintro ⟨type, htype, hcheck⟩
  exact h (of_decide_eq_true hcheck ▸ htype)

/-- An operator of the list stands here. -/
theorem operatorAt_eq_some {types : List TokenType} (h : t.current.type ∈ types) : operatorAt types t =
    some (fun left right ↦ .binary (.ofText t.current.value) left right [], t.advance) := by
  rw [operatorAt, if_pos]
  exact List.any_eq_true.2 ⟨t.current.type, h, decide_eq_true rfl⟩

/-- A grade that the state stops has no operator there. -/
theorem Stops.ends {c i : ℕ} (h : Stops c t) (hi : c ≤ i) {grade : Grade Parser Expr}
    (hgrade : exprGrades[i]? = some grade) : grade.Ends t := by
  have hnot : t.current.type.grade? ≠ some i := fun heq ↦ absurd (h.grade i heq) (Nat.not_lt.2 hi)
  have hcheck (type : TokenType) (htype : type.grade? = some i) : t.check type = false :=
    decide_eq_false fun heq ↦ hnot (heq ▸ htype)
  have hnone (types : List TokenType) (htypes : ∀ type ∈ types, type.grade? = some i) : operatorAt types t = none :=
    operatorAt_eq_none fun hmem ↦ hnot (htypes _ hmem)
  match i, hgrade with
  | 0, rfl =>
    show orAt t = none
    rw [orAt, hcheck .orNah rfl]
    rfl
  | 1, rfl =>
    show andAt t = none
    rw [andAt, hcheck .plus rfl]
    rfl
  | 2, rfl => trivial
  | 3, rfl => exact hnone _ (by decide)
  | 4, rfl => exact hnone _ (by decide)
  | 5, rfl => exact hnone _ (by decide)
  | 6, rfl => trivial

/-- Where an expression of a grade starts, the looser grades have nothing to read before it, and behind it no
comparison. -/
theorem bare_of_starts {p i : ℕ} (hstops : i = 3 → Stops i t) (hstarts : s.current.type.starts p) (hip : i < p)
    {grade : Grade Parser Expr} (hgrade : exprGrades[i]? = some grade) : grade.Bare s t := by
  have hcheck (type : TokenType) (htype : type.starts p = false) : s.check type = false :=
    decide_eq_false fun heq ↦ by rw [heq, htype] at hstarts; cases hstarts
  match i, hgrade with
  | 0, rfl => trivial
  | 1, rfl => trivial
  | 2, rfl =>
    show notAt s = none
    rw [notAt, hcheck .noCapNot (decide_eq_false (Nat.not_le.2 hip))]
    rfl
  | 3, rfl => exact (hstops rfl).ends le_rfl rfl
  | 4, rfl => trivial
  | 5, rfl => trivial
  | 6, rfl =>
    show negAt s = none
    rw [negAt, hcheck .minus (decide_eq_false (Nat.not_le.2 hip))]
    rfl

/-! ### From a grade to a looser one -/

variable (parseSelect parseEraExpr : ExprParser)

/-- The expression is understood at a grade: the parser of the grade reads it when nothing goes on with it, and the
loop or the recursion over the operators of the grade goes on from it or comes back to it. -/
structure Understood (c : ℕ) (s : Parser) (expression : Expr) (t : Parser) : Prop where
  closed : Stops c t → Yields (parseGrade parseSelect parseEraExpr c) s expression t
  ongoing : ∀ grade, exprGrades[c]? = some grade → Stops (c + 1) t → (c = 3 → Stops c t) →
    GradeYields (parseGrade parseSelect parseEraExpr (c + 1)) grade s expression t

variable {parseSelect parseEraExpr} {expression : Expr} {c p : ℕ}

/-- What is read at a tight grade is read at a looser one. -/
theorem parseGrade_lower (hcp : c ≤ p) (h : Yields (parseGrade parseSelect parseEraExpr p) s expression t)
    (hstarts : s.current.type.starts p) (hstops : Stops c t) :
    Yields (parseGrade parseSelect parseEraExpr c) s expression t :=
  h.lower hcp fun _ hi hip _ hgrade ↦
    ⟨bare_of_starts (fun _ ↦ hstops.mono hi) hstarts hip hgrade, hstops.ends hi hgrade⟩

/-- What is understood at a grade is understood at a looser one. -/
theorem Understood.lower (h : Understood parseSelect parseEraExpr p s expression t) (hcp : c ≤ p)
    (hstarts : s.current.type.starts p) : Understood parseSelect parseEraExpr c s expression t := by
  refine ⟨fun hstops ↦ parseGrade_lower hcp (h.closed (hstops.mono hcp)) hstarts hstops,
    fun grade hgrade hstops hthree ↦ ?_⟩
  rcases Nat.eq_or_lt_of_le hcp with rfl | hlt
  · exact h.ongoing grade hgrade hstops hthree
  · exact (parseGrade_lower hlt (h.closed (hstops.mono hlt)) hstarts hstops).grade
      (bare_of_starts hthree hstarts hlt hgrade)

/-- What `parsePrimaryExpr` reads is understood. -/
theorem Understood.of_primary (h : Stops 7 t → Yields (parsePrimary parseSelect parseEraExpr) s expression t) :
    Understood parseSelect parseEraExpr 7 s expression t :=
  ⟨h, fun _ hgrade ↦ nomatch hgrade⟩

/-- What a grade reads with one of its operators is understood there. -/
theorem Understood.of_grade {grade : Grade Parser Expr} (hgrade : exprGrades[p]? = some grade)
    (h : Stops (p + 1) t → GradeYields (parseGrade parseSelect parseEraExpr (p + 1)) grade s expression t) :
    Understood parseSelect parseEraExpr p s expression t := by
  refine ⟨fun hstops ↦ ?_, fun grade' hgrade' hstops _ ↦ ?_⟩
  · have hread : Yields (fun n ↦ grade.reader .exhausted n (parseGrade parseSelect parseEraExpr (p + 1) n)) s expression t :=
      (h (hstops.mono (Nat.le_succ p))).reads (hstops.ends le_rfl hgrade)
    obtain ⟨hp, heq⟩ := List.getElem?_eq_some_iff.1 hgrade
    rw [parseGrade, List.drop_eq_getElem_cons hp, heq]
    exact hread
  · cases hgrade'.symm.trans hgrade
    exact h hstops

/-- In parentheses, what `parseExpr` reads is read by `parsePrimaryExpr`. -/
theorem yields_inParens (hstarts : s.current.type = .lparen) (hselect : s.advance.current.type ≠ .slay)
    (hrparen : u.current.type = .rparen) (h : Yields (parseGrade parseSelect parseEraExpr 0) s.advance expression u) :
    Yields (parsePrimary parseSelect parseEraExpr) s expression u.advance := by
  have hread : Yields (parseExpr parseSelect parseEraExpr) s.advance expression u :=
    h.succ fun n ↦ parseExpr_succ parseSelect parseEraExpr n s.advance
  obtain ⟨N, hN⟩ := hread
  refine ⟨N, fun n hn ↦ ?_⟩
  rw [parsePrimary, parsePrimaryExpr]
  simp only [hstarts]
  rw [parseParenthesized, Parser.check, decide_eq_false hselect, if_neg Bool.false_ne_true, hN n hn]
  show (u.expect .rparen (lit "Expected ')'") >>= _) = _
  rw [expect_of_type hrparen]
  rfl

/-! ### Literals and names -/

/-- An integer that is not negative is read back from its digits. -/
theorem stoll_ofInt {value : Int64} (h : 0 ≤ value.toInt) : stoll (ofInt value.toInt) = .ok value := by
  obtain ⟨n, hn⟩ := Int.eq_ofNat_of_zero_le h
  have hlt : n < 2 ^ 63 := by
    have := value.toInt_lt
    omega
  have hdigits : (ofNat n).takeWhile isDigit = ofNat n := List.takeWhile_eq_self_iff.2 (isDigit_ofNat n)
  rw [hn, show ofInt (n : ℤ) = ofNat n from rfl, stoll, hdigits, digitsValue_ofNat, List.isEmpty_eq_false_iff.2 (ofNat_ne_nil n),
    if_neg Bool.false_ne_true, if_neg (Nat.not_le.2 hlt)]
  congr 1
  apply Int64.toInt_inj.1
  rw [Int64.toInt_ofNat_of_lt hlt, hn]

/-- The text of a double that has its value exactly reads as the double. -/
theorem stod_exactText (bits : UInt64) (h : bits.toNat < 2047 * 2 ^ 52) :
    stod (exactText bits.toNat) = .ok bits := by
  rw [stod, numeralValue_exactText, nearestBits_magnitude, if_neg]
  · exact congrArg Except.ok UInt64.ofNat_toNat
  rintro (hlarge | ⟨-, hinexact⟩)
  · exact Nat.not_le.2 h hlarge
  · exact hinexact rfl

/-- Floats are written with all their digits. -/
def exactWriter : FloatWriter where
  write bits := exactText bits.toNat
  stod_write := stod_exactText

/-- A text is cut where a byte is first found. -/
theorem takeWhile_ne_append {b : UInt8} {text : Bytes} (h : (text.takeWhile (· != b)).length < text.length) :
    text.takeWhile (· != b) ++ b :: text.drop ((text.takeWhile (· != b)).length + 1) = text := by
  induction text with
  | nil => cases h
  | cons first text ih =>
    by_cases hb : first = b
    · rw [List.takeWhile_cons_of_neg (by simp [hb]), hb]
      rfl
    · rw [List.takeWhile_cons_of_pos (by simpa using hb)] at h ⊢
      exact congrArg (first :: ·) (ih (Nat.lt_of_succ_lt_succ h))

theorem TokenType.starts_of_isFunction {type : TokenType} (h : type.isFunction) (c : ℕ) : type.starts c := by
  cases type <;> first | rfl | exact h | cases h

/-- A function keyword is a function token. -/
theorem functionKeyword_isFunction {name : Bytes} {type : TokenType} (h : functionKeyword name = some type) :
    type.isFunction := by
  rw [functionKeyword] at h
  split at h
  · cases h
    rfl
  · exact (Option.filter_eq_some_iff.1 h).2

/-- The name of a function and its parenthesis lead to `parseFunctionCall`. -/
theorem parsePrimary_name {name : Bytes} (hname : Shows (nameSymbols name) s t) (hparen : t.current.type = .lparen)
    (fuel : ℕ) : parsePrimary parseSelect parseEraExpr fuel s =
      parseFunctionCall (parseExpr parseSelect parseEraExpr fuel) fuel name t := by
  rw [nameSymbols] at hname
  rw [parsePrimary, parsePrimaryExpr]
  split at hname
  · rename_i type hkeyword
    obtain ⟨hsymbol, rfl⟩ := hname
    obtain ⟨htype, hvalue⟩ := Prod.mk.inj hsymbol
    have hfunction := functionKeyword_isFunction hkeyword
    simp only [htype, hvalue]
    cases type <;> first | rfl | cases hfunction
  · dsimp only at hname
    split at hname
    -- A name with a point is read as qualifier, point and column, which are put together again.
    · rename_i hqualified
      obtain ⟨hqualifier, hdot, hcolumn, rfl⟩ := hname
      obtain ⟨htype, hvalue⟩ := Prod.mk.inj hqualifier
      obtain ⟨hdotType, -⟩ := Prod.mk.inj hdot
      obtain ⟨hcolumnType, hcolumnValue⟩ := Prod.mk.inj hcolumn
      have hjoin : name.takeWhile (· != 46) ++ lit "." ++ name.drop ((name.takeWhile (· != 46)).length + 1) = name := by
        rw [List.append_assoc]
        exact takeWhile_ne_append hqualified
      simp only [htype, hvalue]
      rw [parseName, check_of_type hdotType, decide_eq_true rfl, if_pos rfl]
      dsimp only
      rw [check_of_type hcolumnType, if_neg (by decide)]
      rw [expect_of_type hcolumnType]
      show (if _ then _ else _) = _
      rw [hcolumnValue, check_of_type hparen, if_pos (decide_eq_true rfl), hjoin]
    · obtain ⟨hsymbol, rfl⟩ := hname
      obtain ⟨htype, hvalue⟩ := Prod.mk.inj hsymbol
      simp only [htype, hvalue]
      rw [parseName, check_of_type hparen, if_neg (by decide), check_of_type hparen,
        if_pos (decide_eq_true rfl)]

/-! ### What an expression starts with -/

section Print

variable {everywhere : Bool} {writer : FloatWriter}

/-- The symbols of an expression start with one that its grade allows. -/
def StartsAt (c : ℕ) (symbols : List Symbol) : Prop :=
  ∃ symbol back, symbols = symbol :: back ∧ symbol.1.starts c

theorem StartsAt.append (h : StartsAt c symbols) (back : List Symbol) : StartsAt c (symbols ++ back) := by
  obtain ⟨symbol, rest, rfl, hstarts⟩ := h
  exact ⟨symbol, rest ++ back, rfl, hstarts⟩

theorem StartsAt.mono (h : StartsAt p symbols) (hcp : c ≤ p) : StartsAt c symbols := by
  obtain ⟨symbol, rest, rfl, hstarts⟩ := h
  exact ⟨symbol, rest, rfl, TokenType.starts_mono hcp hstarts⟩

/-- Parentheses around the symbols start an expression too. -/
theorem StartsAt.inParens (h : StartsAt c symbols) (parens : Bool) : StartsAt c (inParens parens symbols) := by
  rw [SkibidiQL.inParens]
  split
  · exact ⟨_, _, rfl, rfl⟩
  · exact h

/-- The expression at a grade starts with what the grade allows, when it does so without parentheses. -/
theorem StartsAt.printAt (h : StartsAt expression.grade (expression.plain everywhere writer)) (hc : c ≤ 7)
    (hgrade : expression.grade ≤ 7) : StartsAt c (expression.printAt everywhere writer c) := by
  rw [Expr.printAt, SkibidiQL.inParens]
  split
  · exact ⟨_, _, rfl, rfl⟩
  · rename_i hparens
    refine h.mono ?_
    rw [Expr.needsParens, Bool.and_eq_true, Bool.or_eq_true, decide_eq_true_eq, decide_eq_true_eq] at hparens
    omega

/-- The first token shown is that of the first symbol. -/
theorem Shows.starts (h : Shows symbols s t) (hstarts : StartsAt c symbols) : s.current.type.starts c := by
  obtain ⟨symbol, back, rfl, hstarts⟩ := hstarts
  rw [← h.1] at hstarts
  exact hstarts

/-- A name starts an expression of the tightest grade. -/
theorem startsAt_nameSymbols (name : Bytes) : StartsAt 7 (nameSymbols name) := by
  rw [nameSymbols]
  split
  · rename_i type hkeyword
    exact ⟨_, _, rfl, TokenType.starts_of_isFunction (functionKeyword_isFunction hkeyword) 7⟩
  · dsimp only
    split <;> exact ⟨_, _, rfl, rfl⟩

theorem BinaryOperator.grade_le (op : BinaryOperator) : op.grade ≤ 7 := by
  cases op <;> simp [grade]

/-- No expression is of a tighter one. -/
theorem Expr.grade_le (expression : Expr) : expression.grade ≤ 7 := by
  cases expression with
  | binary op => exact op.grade_le
  | unary op => cases op <;> simp [grade]
  | _ => exact le_rfl

/-- The left operand binds at least as tightly as the operator. -/
theorem BinaryOperator.grade_le_leftGrade (op : BinaryOperator) : op.grade ≤ op.leftGrade := by
  rw [leftGrade]
  split <;> omega

/-- The left operand binds no tighter than a name. -/
theorem BinaryOperator.leftGrade_le (op : BinaryOperator) : op.leftGrade ≤ 7 := by
  have hle := op.grade_le
  rw [leftGrade]
  split <;> omega

/-- Without parentheses, a printed expression starts with what its grade allows. -/
theorem Expr.Printable.startsAt (h : expression.Printable) :
    StartsAt expression.grade (expression.plain everywhere writer) := by
  induction h with
  | int | float | string | nul => exact ⟨_, _, rfl, rfl⟩
  | column table column =>
    show StartsAt 7 (ColumnRef.symbols _)
    rw [ColumnRef.symbols]
    split <;> exact ⟨_, _, rfl, rfl⟩
  | not | neg => exact ⟨_, _, rfl, rfl⟩
  | @binary op left right hop hleft hright ihleft ihright =>
    show StartsAt op.grade (left.printAt everywhere writer op.leftGrade ++ _)
    exact ((ihleft.printAt op.leftGrade_le left.grade_le).mono op.grade_le_leftGrade).append _
  | call name => exact (((startsAt_nameSymbols name).append _).append _).append _
  | countAll | countDistinct => exact (((startsAt_nameSymbols _).append _).append _).append _

/-! ### Operators -/

/-- The operator that a state shows is that of its grade. -/
theorem BinaryOperator.operator_at {op : BinaryOperator} (hop : ∀ text, op ≠ .other text)
    (h : u.current.symbol = op.symbol) :
    (op.leftGrade = op.grade ∧ ∃ operator, exprGrades[op.grade]? = some (.left operator) ∧
      operator u = some (fun left right ↦ .binary op left right [], u.advance)) ∨
    (op.grade = 3 ∧ compareAt u = some (fun left right ↦ .binary op left right [], u.advance)) := by
  obtain ⟨htype, hvalue⟩ := Prod.mk.inj h
  cases op with
  | or =>
    refine .inl ⟨rfl, orAt, rfl, ?_⟩
    rw [orAt, check_of_type htype]
    rfl
  | and =>
    refine .inl ⟨rfl, andAt, rfl, ?_⟩
    rw [andAt, check_of_type htype]
    rfl
  | eq | ne | lt | gt | le | ge =>
    refine .inr ⟨rfl, ?_⟩
    rw [compareAt, operatorAt_eq_some (by rw [htype]; decide), hvalue]
    rfl
  | add | sub | concat =>
    refine .inl ⟨rfl, addAt, rfl, ?_⟩
    rw [addAt, operatorAt_eq_some (by rw [htype]; decide), hvalue]
    rfl
  | mul | div =>
    refine .inl ⟨rfl, mulAt, rfl, ?_⟩
    rw [mulAt, operatorAt_eq_some (by rw [htype]; decide), hvalue]
    rfl
  | other text => exact absurd rfl (hop text)

/-- The token of a known operator has the grade of the operator. -/
theorem BinaryOperator.grade?_symbol {op : BinaryOperator} (hop : ∀ text, op ≠ .other text) :
    op.symbol.1.grade? = some op.grade := by
  cases op with
  | other text => exact absurd rfl (hop text)
  | _ => rfl

/-- An operator goes on with the expressions of its own grade, and of looser ones only. -/
theorem BinaryOperator.stops {op : BinaryOperator} (hop : ∀ text, op ≠ .other text)
    (h : u.current.symbol = op.symbol) : Stops (op.grade + 1) u := by
  have htype : u.current.type = op.symbol.1 := congrArg Prod.fst h
  refine ⟨fun grade hgrade ↦ ?_, ?_, ?_⟩
  · rw [htype, op.grade?_symbol hop] at hgrade
    cases hgrade
    exact Nat.lt_succ_self _
  all_goals
    rw [htype]
    cases op <;> simp [symbol]

/-- What stands between parentheses or commas goes on with no expression. -/
theorem stops_of_type {type : TokenType} (h : t.current.type = type) (hgrade : type.grade? = none)
    (hdot : type ≠ .dot) (hlparen : type ≠ .lparen) (c : ℕ) : Stops c t := by
  rw [← h] at hgrade hdot hlparen
  refine ⟨fun grade heq ↦ ?_, hdot, hlparen⟩
  cases hgrade.symm.trans heq

/-- An expression that is understood at its own grade without parentheses is understood wherever it is printed. -/
theorem Understood.printAt (hprint : expression.Printable)
    (h : ∀ s t, Shows (expression.plain everywhere writer) s t →
      Understood parseSelect parseEraExpr expression.grade s expression t) (hc : c ≤ 7)
    (hshows : Shows (expression.printAt everywhere writer c) s t) :
    Understood parseSelect parseEraExpr c s expression t := by
  have hstart := hshows.starts (hprint.startsAt.printAt hc expression.grade_le)
  rw [Expr.printAt, SkibidiQL.inParens] at hshows
  split at hshows
  · -- in parentheses it is read by `parseExpr`
    rw [List.cons_append] at hshows
    obtain ⟨hopen, hbehind⟩ := hshows
    obtain ⟨u, hinner, hclose⟩ := shows_append.1 hbehind
    obtain ⟨hrparen, rfl⟩ := hclose
    have hopenType : s.current.type = .lparen := congrArg Prod.fst hopen
    have hcloseType : u.current.type = .rparen := congrArg Prod.fst hrparen
    have hinnerStart := hinner.starts hprint.startsAt
    have hselect : s.advance.current.type ≠ .slay := by
      intro heq
      rw [heq] at hinnerStart
      cases hinnerStart
    have hread := ((h s.advance u hinner).lower (Nat.zero_le _) hinnerStart).closed
      (stops_of_type hcloseType rfl nofun nofun 0)
    refine (of_primary fun _ ↦ yields_inParens hopenType hselect hcloseType hread).lower hc ?_
    rw [hopenType]
    rfl
  · rename_i hparens
    refine (h s t hshows).lower ?_ (hshows.starts hprint.startsAt)
    rw [Expr.needsParens, Bool.and_eq_true, Bool.or_eq_true, decide_eq_true_eq, decide_eq_true_eq] at hparens
    have hle := expression.grade_le
    omega

/-! ### Arguments -/

/-- What stands in front of a parenthesis or a comma is read by `parseExpr`. -/
theorem Understood.yields (h : Understood parseSelect parseEraExpr 0 s expression t)
    (ht : t.current.type = .comma ∨ t.current.type = .rparen) :
    Yields (parseExpr parseSelect parseEraExpr) s expression t := by
  have hstops : Stops 0 t := by
    rcases ht with ht | ht
    · exact stops_of_type ht rfl nofun nofun 0
    · exact stops_of_type ht rfl nofun nofun 0
  exact (h.closed hstops).succ fun n ↦ parseExpr_succ parseSelect parseEraExpr n s

variable (parseSelect parseEraExpr everywhere writer) in
/-- The expression is understood wherever it is printed without parentheses. -/
def UnderstoodPlain (expression : Expr) : Prop :=
  ∀ s t, Shows (expression.plain everywhere writer) s t →
    Understood parseSelect parseEraExpr expression.grade s expression t

/-- Behind an argument stands a comma or the closing parenthesis. -/
theorem shows_plainMore {args : List Expr} (h : Shows (plainMore everywhere writer args) s t)
    (ht : t.current.type = .rparen) : s.current.type = .comma ∨ s.current.type = .rparen := by
  cases args with
  | nil =>
    obtain rfl : s = t := h
    exact .inr ht
  | cons arg args => exact .inl (congrArg Prod.fst h.1)

/-- The loop over the commas goes on to the closing parenthesis. -/
theorem ListYields.plainMore {args before : List Expr} {start : Parser}
    (hbefore : ListYields commaAt (parseExpr parseSelect parseEraExpr) start before s)
    (hprint : ∀ arg ∈ args, arg.Printable)
    (hunderstood : ∀ arg ∈ args, UnderstoodPlain parseSelect parseEraExpr everywhere writer arg)
    (hshows : Shows (plainMore everywhere writer args) s t) (ht : t.current.type = .rparen) :
    ListYields commaAt (parseExpr parseSelect parseEraExpr) start (before ++ args) t := by
  induction args generalizing before s with
  | nil =>
    obtain rfl : s = t := hshows
    rwa [List.append_nil]
  | cons arg args ih =>
    rw [List.forall_mem_cons] at hprint hunderstood
    rw [SkibidiQL.plainMore, List.cons_append] at hshows
    obtain ⟨hcomma, hrest⟩ := hshows
    obtain ⟨u, harg, hmore⟩ := shows_append.1 hrest
    have hread := (Understood.printAt hprint.1 hunderstood.1 (Nat.zero_le _) harg).yields (shows_plainMore hmore ht)
    have hcommaAt : commaAt s = some s.advance := by
      rw [commaAt, check_of_type (congrArg Prod.fst hcomma)]
      rfl
    have hnext := ih (hbefore.snoc hcommaAt hread) hprint.2 hunderstood.2 hmore
    rwa [List.append_assoc] at hnext

/-- Arguments that are understood are read one after the other. -/
theorem listYields_plainArgs {arg : Expr} {args : List Expr} (hprint : ∀ other ∈ arg :: args, other.Printable)
    (hunderstood : ∀ other ∈ arg :: args, UnderstoodPlain parseSelect parseEraExpr everywhere writer other)
    (hshows : Shows (plainArgs everywhere writer (arg :: args)) s t) (ht : t.current.type = .rparen) :
    ListYields commaAt (parseExpr parseSelect parseEraExpr) s (arg :: args) t := by
  rw [List.forall_mem_cons] at hprint hunderstood
  obtain ⟨u, harg, hmore⟩ := shows_append.1 hshows
  have hread := (Understood.printAt hprint.1 hunderstood.1 (Nat.zero_le _) harg).yields (shows_plainMore hmore ht)
  exact (ListYields.single hread).plainMore hprint.2 hunderstood.2 hmore ht

/-- A call shows its name, the parentheses and what stands between. -/
theorem shows_call {name : Bytes} {front : List Symbol}
    (h : Shows (nameSymbols name ++ (.lparen, lit "(") :: front ++ back ++ [(.rparen, lit ")")]) s t) :
    ∃ u v, Shows (nameSymbols name) s u ∧ u.current.type = .lparen ∧ Shows (front ++ back) u.advance v ∧
      v.current.type = .rparen ∧ v.advance = t := by
  obtain ⟨v, hfront, hclose, rfl⟩ := shows_append.1 h
  rw [List.append_assoc] at hfront
  obtain ⟨u, hname, hopen, hinner⟩ := shows_append.1 hfront
  exact ⟨u, v, hname, congrArg Prod.fst hopen, hinner, congrArg Prod.fst hclose, rfl⟩

/-- A function name, a parenthesis, and what `parseFunctionCall` reads behind it. -/
theorem Understood.of_call {name : Bytes} (hname : Shows (nameSymbols name) s u) (hopen : u.current.type = .lparen)
    (h : Yields (fun n ↦ parseFunctionCall (parseExpr parseSelect parseEraExpr n) n name) u expression t) :
    Understood parseSelect parseEraExpr 7 s expression t := by
  obtain ⟨N, hN⟩ := h
  refine of_primary fun _ ↦ ⟨N, fun n hn ↦ ?_⟩
  rw [parsePrimary_name hname hopen]
  exact hN n hn

/-- The arguments up to the closing parenthesis. -/
theorem yields_call {name : Bytes} {args : List Expr} (hopen : u.current.type = .lparen)
    (hprint : ∀ arg ∈ args, arg.Printable)
    (hunderstood : ∀ arg ∈ args, UnderstoodPlain parseSelect parseEraExpr everywhere writer arg)
    (hshows : Shows (plainArgs everywhere writer args) u.advance t) (ht : t.current.type = .rparen) :
    Yields (fun n ↦ parseFunctionCall (parseExpr parseSelect parseEraExpr n) n name) u (.function name args false [])
      t.advance := by
  cases args with
  | nil =>
    have hclose : u.advance.current.type = .rparen := by
      rw [show u.advance = t from hshows]
      exact ht
    refine .of_eq fun n ↦ ?_
    show parseFunctionCall _ n _ u = _
    rw [parseFunctionCall, expect_of_type hopen]
    simp only [bind, Except.bind, check_of_type hclose]
    rw [if_neg (by simp), if_neg (by simp), if_pos (by simp), show u.advance = t from hshows]
  | cons arg args =>
    -- No argument starts with a star, `uniqueFR` or a closing parenthesis.
    have hstarts : u.advance.current.type.starts 0 := by
      obtain ⟨v, harg, -⟩ := shows_append.1 hshows
      have hfirst := hprint arg List.mem_cons_self
      exact harg.starts (hfirst.startsAt.printAt (Nat.zero_le _) arg.grade_le)
    have hcheck (type : TokenType) (htype : type.starts 0 = false) : u.advance.check type = false :=
      decide_eq_false fun heq ↦ by rw [heq, htype] at hstarts; cases hstarts
    have hlist := listYields_plainArgs hprint hunderstood hshows ht
    have hend : commaAt t = none := by
      rw [commaAt, check_of_type ht]
      rfl
    have hargs : Yields (fun n ↦ separatedList commaAt (parseExpr parseSelect parseEraExpr n) .exhausted n) u.advance
        (arg :: args) t := hlist.reads hend
    obtain ⟨N, hN⟩ := hargs
    refine ⟨N, fun n hn ↦ ?_⟩
    show parseFunctionCall _ n _ u = _
    rw [parseFunctionCall, expect_of_type hopen]
    simp only [bind, Except.bind, hcheck .star rfl, hcheck .uniqueFr rfl, hcheck .rparen rfl, hN n hn, expect_of_type ht]
    simp

/-- The count of all rows is read back. -/
theorem yields_countAll (hopen : u.current.type = .lparen) (hstar : u.advance.current.type = .star)
    (hclose : u.advance.advance.current.type = .rparen) :
    Yields (fun n ↦ parseFunctionCall (parseExpr parseSelect parseEraExpr n) n (lit "headcount")) u
      (.function (lit "headcount") [.wildcard {}] false []) u.advance.advance.advance := by
  refine .of_eq fun n ↦ ?_
  show parseFunctionCall _ n _ u = _
  rw [parseFunctionCall, expect_of_type hopen]
  simp only [bind, Except.bind, check_of_type hstar, expect_of_type hclose]
  simp

/-- A count of distinct values is read back. -/
theorem yields_countDistinct {argument : Expr} (hopen : u.current.type = .lparen)
    (hdistinct : u.advance.current.type = .uniqueFr)
    (hread : Yields (parseExpr parseSelect parseEraExpr) u.advance.advance argument t)
    (ht : t.current.type = .rparen) :
    Yields (fun n ↦ parseFunctionCall (parseExpr parseSelect parseEraExpr n) n (lit "headcount")) u
      (.function (lit "headcount") [argument] true []) t.advance := by
  obtain ⟨N, hN⟩ := hread
  refine ⟨N, fun n hn ↦ ?_⟩
  show parseFunctionCall _ n _ u = _
  rw [parseFunctionCall, expect_of_type hopen]
  simp only [bind, Except.bind, check_of_type hdistinct, hN n hn, expect_of_type ht]
  simp

/-! ### Whole expressions -/

/-- A literal is read from its token. -/
theorem Understood.of_literal {value : Literal} {symbol : Symbol} (hshows : Shows [symbol] s t)
    (hread : ∀ parser : Parser, parser.current.symbol = symbol → ∀ n,
      parsePrimary parseSelect parseEraExpr n parser = .ok (.literal value, parser.advance)) :
    Understood parseSelect parseEraExpr 7 s (.literal value) t := by
  obtain ⟨hsymbol, rfl⟩ := hshows
  exact of_primary fun _ ↦ .of_eq fun n ↦ hread s hsymbol n

/-- A column is read from its name. -/
theorem Understood.of_column {table column : Bytes}
    (hshows : Shows (ColumnRef.symbols { table, column }) s t) :
    Understood parseSelect parseEraExpr 7 s (.column { table, column }) t := by
  refine of_primary fun hstops ↦ .of_eq fun n ↦ ?_
  have hdot : t.check .dot = false := decide_eq_false hstops.dot
  have hlparen : t.check .lparen = false := decide_eq_false hstops.lparen
  rw [ColumnRef.symbols] at hshows
  rw [parsePrimary, parsePrimaryExpr]
  dsimp only at hshows
  split at hshows
  · rename_i htable
    obtain ⟨hsymbol, rfl⟩ := hshows
    obtain ⟨htype, hvalue⟩ := Prod.mk.inj hsymbol
    simp only [htype, hvalue]
    rw [parseName, hdot, if_neg Bool.false_ne_true, hlparen, if_neg Bool.false_ne_true, htable]
  · obtain ⟨hsymbol, hpoint, hname, rfl⟩ := hshows
    obtain ⟨htype, hvalue⟩ := Prod.mk.inj hsymbol
    obtain ⟨hpointType, -⟩ := Prod.mk.inj hpoint
    obtain ⟨hnameType, hnameValue⟩ := Prod.mk.inj hname
    simp only [htype, hvalue]
    rw [parseName, check_of_type hpointType, if_pos (decide_eq_true rfl)]
    dsimp only
    rw [check_of_type hnameType, if_neg (by decide), expect_of_type hnameType]
    show (if _ then _ else _) = _
    rw [hlparen, if_neg Bool.false_ne_true, hnameValue]

/-- A binary operation is understood when its operands are. -/
theorem Understood.of_binary {op : BinaryOperator} {left right : Expr} (hop : ∀ text, op ≠ .other text)
    (hsymbol : u.current.symbol = op.symbol) (hleft : Understood parseSelect parseEraExpr op.leftGrade s left u)
    (hright : Understood parseSelect parseEraExpr (op.grade + 1) u.advance right t) :
    Understood parseSelect parseEraExpr op.grade s (.binary op left right []) t := by
  have hstops := BinaryOperator.stops hop hsymbol
  rcases BinaryOperator.operator_at hop hsymbol with ⟨hgroup, operator, hgrade, hoperator⟩ | ⟨hthree, hoperator⟩
  · -- the left operand is what the loop has read so far
    rw [hgroup] at hleft
    have hne : op.grade ≠ 3 := fun heq ↦ by rw [heq] at hgrade; cases hgrade
    exact of_grade hgrade fun hends ↦
      .combine (hleft.ongoing _ hgrade hstops fun heq ↦ absurd heq hne) hoperator (hright.closed hends)
  · -- a comparison has one operator only
    have hfour : op.leftGrade = 4 := if_pos hthree
    rw [hfour] at hleft
    rw [hthree] at hright hstops ⊢
    exact of_grade (p := 3) rfl fun hends ↦ .pair (hleft.closed hstops) hoperator (hright.closed hends)

/-- Every expression that prints is understood, by induction on it. -/
theorem Expr.Printable.understood (h : expression.Printable) :
    UnderstoodPlain parseSelect parseEraExpr everywhere writer expression := by
  -- By the shape of the expression: the tokens of every part are shown, hence read, by induction.
  induction h with
  | int hnonneg =>
    refine fun s t hshows ↦ .of_literal hshows fun parser hsymbol n ↦ ?_
    obtain ⟨htype, hvalue⟩ := Prod.mk.inj hsymbol
    rw [parsePrimary, parsePrimaryExpr]
    simp only [htype, hvalue, stoll_ofInt hnonneg]
    rfl
  | float hfinite =>
    refine fun s t hshows ↦ .of_literal hshows fun parser hsymbol n ↦ ?_
    obtain ⟨htype, hvalue⟩ := Prod.mk.inj hsymbol
    rw [parsePrimary, parsePrimaryExpr]
    simp only [htype, hvalue, writer.stod_write _ hfinite]
    rfl
  | string value =>
    refine fun s t hshows ↦ .of_literal hshows fun parser hsymbol n ↦ ?_
    obtain ⟨htype, hvalue⟩ := Prod.mk.inj hsymbol
    rw [parsePrimary, parsePrimaryExpr]
    simp only [htype, hvalue]
  | nul =>
    refine fun s t hshows ↦ .of_literal hshows fun parser hsymbol n ↦ ?_
    rw [parsePrimary, parsePrimaryExpr]
    simp only [show parser.current.type = .ghosted from congrArg Prod.fst hsymbol]
  | column table column => exact fun s t hshows ↦ .of_column hshows
  | not hoperand ih =>
    rintro s t ⟨hsymbol, hshows⟩
    have hnot : notAt s = some (fun operand ↦ .unary .not operand [], s.advance) := by
      rw [notAt, check_of_type (congrArg Prod.fst hsymbol)]
      rfl
    refine Understood.of_grade (p := 2) rfl fun hends ↦ .apply hnot ?_
    exact (Understood.printAt hoperand ih (by decide) hshows).ongoing _ rfl hends nofun
  | neg hoperand ih =>
    rintro s t ⟨hsymbol, hshows⟩
    have hneg : negAt s = some (fun operand ↦ .unary .neg operand [], s.advance) := by
      rw [negAt, check_of_type (congrArg Prod.fst hsymbol)]
      rfl
    refine Understood.of_grade (p := 6) rfl fun hends ↦ .apply hneg ?_
    exact (Understood.printAt hoperand ih (by decide) hshows).ongoing _ rfl hends nofun
  | @binary op left right hop hleft hright ihleft ihright =>
    intro s t hshows
    obtain ⟨u, hbefore, hsymbol, hbehind⟩ := shows_append.1 hshows
    have hrightGrade : op.grade + 1 ≤ 7 := by
      cases op with
      | other text => exact absurd rfl (hop text)
      | _ => decide
    exact .of_binary hop hsymbol (.printAt hleft ihleft op.leftGrade_le hbefore)
      (.printAt hright ihright hrightGrade hbehind)
  | call name hargs ih =>
    intro s t hshows
    obtain ⟨u, v, hname, hopen, hargsShow, hclose, rfl⟩ := shows_call hshows
    exact .of_call hname hopen (yields_call hopen hargs ih hargsShow hclose)
  | countAll =>
    intro s t hshows
    obtain ⟨u, v, hname, hopen, ⟨hstar, rfl⟩, hclose, rfl⟩ := shows_call hshows
    exact .of_call hname hopen (yields_countAll hopen (congrArg Prod.fst hstar) hclose)
  | countDistinct hargument ih =>
    intro s t hshows
    obtain ⟨u, v, hname, hopen, ⟨hdistinct, hargs⟩, hclose, rfl⟩ := shows_call hshows
    -- The argument is read up to the closing parenthesis, which stops every grade.
    obtain ⟨w, hinner, hend⟩ := shows_append.1 (show Shows (_ ++ []) u.advance.advance v from hargs)
    obtain rfl : w = v := hend
    have hread := (Understood.printAt hargument ih (Nat.zero_le _) hinner).yields (.inr hclose)
    exact .of_call hname hopen (yields_countDistinct hopen (congrArg Prod.fst hdistinct) hread hclose)

/-- A printed expression is parsed back, to its last token. -/
theorem parseExpr_print (parseSelect parseEraExpr : ExprParser) (everywhere : Bool) (writer : FloatWriter)
    {expression : Expr} (hprint : expression.Printable) {tokens : List Token}
    (htokens : tokens.map Token.symbol = expression.print everywhere writer) {rest : Parser} (hrest : Stops 0 rest) :
    ∃ N, ∀ fuel ≥ N, parseExpr parseSelect parseEraExpr fuel (rest.behind tokens) = .ok (expression, rest) := by
  have hshows := shows_behind rest tokens
  rw [htokens] at hshows
  have hunderstood : Understood parseSelect parseEraExpr 0 (rest.behind tokens) expression rest :=
    .printAt hprint hprint.understood (Nat.zero_le _) hshows
  exact (hunderstood.closed hrest).succ fun n ↦ parseExpr_succ parseSelect parseEraExpr n _

/-- `not t.a or -2 + headcount(unique-fr b) * 0.5 = null`, with the parentheses it needs. -/
theorem parseExpr_print_small : ∃ N, ∀ fuel ≥ N,
    parseExpr (fun _ ↦ .error .exhausted) (fun _ ↦ .error .exhausted) fuel
      (Parser.behind ⟨⟨.eofToken, [], 1, 1⟩, []⟩ ((Expr.print false exactWriter
        (.binary .or (.unary .not (.column { table := lit "t", column := lit "a" }) [])
          (.binary .eq (.binary .add (.unary .neg (.literal (.int 2)) [])
            (.binary .mul (.function (lit "headcount") [.column { column := lit "b" }] true [])
              (.literal (.float 0x3FE0000000000000)) []) []) (.literal .nul) []) [])).map fun symbol ↦
          ⟨symbol.1, symbol.2, 1, 1⟩)) =
      .ok (.binary .or (.unary .not (.column { table := lit "t", column := lit "a" }) [])
          (.binary .eq (.binary .add (.unary .neg (.literal (.int 2)) [])
            (.binary .mul (.function (lit "headcount") [.column { column := lit "b" }] true [])
              (.literal (.float 0x3FE0000000000000)) []) []) (.literal .nul) []) [],
        ⟨⟨.eofToken, [], 1, 1⟩, []⟩) := by
  refine parseExpr_print _ _ false exactWriter ?_ ?_
    (stops_of_type (show _ = TokenType.eofToken from rfl) rfl nofun nofun 0)
  · exact .binary (by simp) (.not (.column _ _)) (.binary (by simp) (.binary (by simp) (.neg (.int (by decide)))
      (.binary (by simp) (.countDistinct (.column _ _)) (.float (by decide)))) .nul)
  · rw [List.map_map]
    exact List.map_id _

end Print

end SkibidiQL
