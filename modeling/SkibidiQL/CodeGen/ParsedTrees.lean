import SkibidiQL.CodeGen.GeneratedTrees
import SkibidiQL.Syntax.ExpressionParser
import SkibidiQL.Syntax.LexerRules

/-!
# The trees that the parser makes

What the parser makes of the tokens of a source is, as far as it is made from literals, columns, operators and
functions, among the expressions that SQL is generated from: the lexer spells identifiers and keywords as such, and
the parser reads numbers without a sign.
-/

namespace SkibidiQL

open Bytes

/-! ### The tokens of a source -/

/-- The types of the operators that are the strings of their tokens. -/
def operatorTypes : List TokenType :=
  [.eq, .neq, .lt, .gt, .lte, .gte, .plusOp, .minus, .concat, .star, .slash]

/-- The token is spelled as its type asks for: identifiers are words, and the names of functions and the operators
are those there are. -/
structure Token.IsSpelled (token : Token) : Prop where
  identifier : token.type = .identifier → Sql.isWord token.value
  function : token.type.isFunction → FunctionName token.value
  operator : token.type ∈ operatorTypes → (BinaryOperator.ofText token.value).isKnown

/-- A token of any other type may be spelled in any way. -/
theorem Token.isSpelled_of_type (type : TokenType) (h : type ≠ .identifier ∧ type.isFunction = false ∧
    type ∉ operatorTypes) {token : Token} (htype : token.type = type) : token.IsSpelled := by
  subst htype
  refine ⟨fun heq ↦ absurd heq h.1, fun heq ↦ ?_, fun hmem ↦ absurd hmem h.2.2⟩
  rw [h.2.1] at heq
  cases heq

namespace Lexer

variable {lexer : Lexer} {c : UInt8} {text : Bytes}

/-- What the reader reads is spelled. -/
def Spells (reader : Except LexerError (Token × Lexer)) : Prop :=
  ∀ read, reader = .ok read → read.1.IsSpelled

/-- A choice spells when both branches do. -/
theorem Spells.ite {p : Prop} [Decidable p] {yes no : Except LexerError (Token × Lexer)} (hyes : Spells yes)
    (hno : Spells no) : Spells (if p then yes else no) := by
  split
  · exact hyes
  · exact hno

theorem spells_error (e : LexerError) : Spells (.error e) :=
  fun _ h ↦ nomatch h

/-- An operator token spells a known operator. -/
theorem spells_operator {type : TokenType} {op : String} (h : type ≠ .identifier ∧ type.isFunction = false ∧
    (type ∈ operatorTypes → (BinaryOperator.ofText (lit op)).isKnown)) : Spells (lexer.operator type op) := by
  intro _ heq
  cases heq
  refine ⟨fun heq ↦ absurd heq h.1, fun heq ↦ ?_, h.2.2⟩
  have heq : type.isFunction := heq
  rw [h.2.1] at heq
  cases heq

/-- Every operator that is read is spelled. -/
theorem spells_readOperator (lexer : Lexer) (c : UInt8) : Spells (lexer.readOperator c) := by
  unfold readOperator
  repeat' refine .ite ?_ ?_
  all_goals first
    | exact spells_error _
    | exact spells_operator (by decide +kernel)

/-- A keyword is no identifier and no operator, and the name of a function when its type is that of one. -/
theorem keywords_spelled : ∀ entry ∈ keywords, entry.2 ≠ .identifier ∧
    (entry.2.isFunction → Sql.isWord entry.1 ∨ entry.1 ∈ hyphenatedFunctions) ∧ entry.2 ∉ operatorTypes := by
  decide +kernel

/-- What continues an identifier is a word byte, the minus sign apart. -/
theorem isWordByte_of_continue {b : UInt8} (h : isWordContinue b) (hne : b ≠ 45) : Sql.isWordByte b := by
  simp only [isWordContinue, isAlnum, Bool.or_eq_true, beq_iff_eq] at h
  simp only [Sql.isWordByte, Sql.isWordStart, Bool.or_eq_true, beq_iff_eq]
  tauto

/-- The bytes of a word continue it. -/
theorem isWordContinue_of_mem {b : UInt8} (h : b ∈ wordText text) : isWordContinue b := by
  induction text with
  | nil => cases h
  | cons first text ih =>
    rw [wordText] at h
    split at h
    · cases h
    · split at h
      · cases h
      · rename_i hcontinue _
        rcases List.mem_cons.1 h with rfl | h
        · rwa [Bool.not_eq_true, Bool.not_eq_false'] at hcontinue
        · exact ih h

/-- The word that is read is spelled. -/
theorem readWord_spelled (hrest : lexer.rest = c :: text) (hstart : isWordStart c) : lexer.readWord.1.IsSpelled := by
  unfold readWord
  simp only
  split
  · rename_i hL
    refine ⟨?_, fun _ ↦ ?_, fun hmem ↦ ?_⟩
    · exact fun heq ↦ nomatch heq
    · show FunctionName (wordText lexer.rest)
      rw [hL]
      exact .word (by decide)
    · have hmem : TokenType.lFunc ∈ operatorTypes := hmem
      exact absurd hmem (by decide)
  · split
    -- A word that is in the table of keywords was checked there; any other is an identifier.
    · rename_i type hlookup
      obtain ⟨front, back, hkeywords, -⟩ := List.lookup_eq_some_iff.1 hlookup
      have hmem : (wordText lexer.rest, type) ∈ keywords := by
        rw [hkeywords]
        exact List.mem_append_right _ List.mem_cons_self
      obtain ⟨hidentifier, hfunction, hoperator⟩ := keywords_spelled _ hmem
      refine ⟨fun heq ↦ absurd heq hidentifier, fun htype ↦ ?_, fun hmem ↦ absurd hmem hoperator⟩
      rcases hfunction htype with hword | hhyphen
      · exact .word hword
      · exact .keyword hhyphen
    · refine ⟨fun _ ↦ ?_, fun heq ↦ absurd heq Bool.false_ne_true, fun hmem ↦ ?_⟩
      rotate_left
      · have hmem : TokenType.identifier ∈ operatorTypes := hmem
        exact absurd hmem (by decide)
      have hhyphen : (c != 45) = true := by
        rw [bne_iff_ne]
        rintro rfl
        exact absurd hstart (by decide)
      show Sql.isWord ((wordText lexer.rest).takeWhile (· != 45))
      have hbytes : ∀ b ∈ (wordText lexer.rest).takeWhile (· != 45), Sql.isWordByte b := fun b hb ↦ by
        have hne := List.mem_takeWhile_imp hb
        exact isWordByte_of_continue (isWordContinue_of_mem ((List.takeWhile_subset _) hb)) (bne_iff_ne.1 hne)
      rw [hrest, wordText_cons hstart, List.takeWhile_cons_of_pos (p := fun b ↦ b != 45) hhyphen] at hbytes ⊢
      rw [Sql.isWord, Bool.and_eq_true, List.all_eq_true]
      exact ⟨hstart, hbytes⟩

/-- Every token read is spelled. -/
theorem readToken_spelled (hrest : lexer.rest = c :: text) {token : Token} {next : Lexer}
    (hread : lexer.readToken c = .ok (some token, next)) : token.IsSpelled := by
  have hmap {reader : Except LexerError (Token × Lexer)} (hspells : Spells reader)
      (hread : reader.map (fun read ↦ (some read.1, read.2)) = .ok (some token, next)) : token.IsSpelled := by
    cases reader with
    | error => cases hread
    | ok read =>
      cases hread
      exact hspells read rfl
  unfold readToken at hread
  dsimp only at hread
  -- The branches of the reader in order; a literal is spelled whatever its text.
  split at hread
  · cases hread
  split at hread
  · cases hskip : lexer.skipBlockComment with
    | error => rw [hskip] at hread; cases hread
    | ok => rw [hskip] at hread; cases hread
  split at hread
  · refine hmap (fun read hstring ↦ ?_) hread
    unfold readString at hstring
    split at hstring
    · cases hstring
      exact Token.isSpelled_of_type .stringLit (by decide) rfl
    · cases hstring
  split at hread
  · refine hmap (fun read hnumber ↦ ?_) hread
    unfold readNumber at hnumber
    dsimp only at hnumber
    split at hnumber
    · cases hnumber
    · cases hnumber
      dsimp only [Lexer.token]
      split
      · exact Token.isSpelled_of_type .integerLit (by decide) rfl
      · exact Token.isSpelled_of_type .floatLit (by decide) rfl
  split at hread
  · rename_i hstart
    cases hread
    exact readWord_spelled hrest hstart
  · exact hmap (spells_readOperator lexer c) hread

/-- Every token of a source is spelled. -/
theorem tokensFrom_spelled {fuel : ℕ} {tokens : List Token} (h : tokensFrom fuel lexer = .ok tokens) :
    ∀ token ∈ tokens, token.IsSpelled := by
  induction fuel generalizing lexer tokens with
  | zero =>
    cases h
    exact List.forall_mem_nil _
  | succ fuel ih =>
    unfold tokensFrom at h
    dsimp only at h
    split at h
    · cases h
      exact List.forall_mem_singleton.2 (Token.isSpelled_of_type .eofToken (by decide) rfl)
    · rename_i c text hrest
      cases hread : lexer.skipWhitespace.readToken c with
      | error => rw [hread] at h; cases h
      | ok read =>
        rw [hread] at h
        change (tokensFrom fuel read.2 >>= _) = _ at h
        cases hmore : tokensFrom fuel read.2 with
        | error => rw [hmore] at h; cases h
        | ok more =>
          rw [hmore] at h
          cases h
          obtain ⟨token, next⟩ := read
          refine List.forall_mem_append.2 ⟨fun token' htoken ↦ ?_, ih hmore⟩
          rw [Option.mem_toList] at htoken
          cases htoken
          exact readToken_spelled hrest hread

/-- The tokens of a source are spelled. -/
theorem tokenize_spelled {source : Bytes} {tokens : List Token} (h : tokenize source = .ok tokens) :
    ∀ token ∈ tokens, token.IsSpelled :=
  tokensFrom_spelled h

end Lexer

/-! ### What the parser makes -/

/-- The tokens in front of the parser are spelled. -/
def Parser.IsSpelled (parser : Parser) : Prop :=
  ∀ token ∈ parser.current :: parser.following, token.IsSpelled

/-- Whether the argument is the star of all rows. -/
def isAllRows : List Expr → Bool
  | [.wildcard wildcard] => wildcard = {}
  | _ => false

mutual

/-- Whether the expression is made from literals, columns, operators and functions. -/
def Expr.isPlain : Expr → Bool
  | .literal _ | .column _ => true
  | .binary _ left right _ => left.isPlain && right.isPlain
  | .unary _ operand _ => operand.isPlain
  | .function _ args distinct _ => (!distinct && isAllRows args) || arePlain args
  | .wildcard _ | .window .. | .subquery => false

/-- Whether the arguments of a function are. -/
def arePlain : List Expr → Bool
  | [] => true
  | arg :: args => arg.isPlain && arePlain args

end

/-- From tokens that are spelled comes an expression without a sign, and one that SQL is generated from when it is
plain. -/
def ParsesPlain (s : Parser) (e : Expr) (t : Parser) : Prop :=
  s.IsSpelled → t.IsSpelled ∧ e.isSigned = false ∧ (e.isPlain → e.Generated)

/-- From tokens that are spelled come the arguments of a function. -/
def ParsesArgs (s : Parser) (args : List Expr) (t : Parser) : Prop :=
  s.IsSpelled → t.IsSpelled ∧ ∀ arg ∈ args, arg.isPlain → arg.Generated

variable {s t : Parser} {e : Expr} {args : List Expr}

/-- Spelled tokens stay so as the parser advances. -/
theorem Parser.IsSpelled.advance (h : s.IsSpelled) : s.advance.IsSpelled := by
  rw [Parser.advance]
  split
  · exact h
  · rename_i token following hfollowing
    intro token' htoken
    exact h token' (List.mem_cons_of_mem _ (hfollowing ▸ htoken))

/-- An expected token is read where it stands. -/
theorem expect_eq_ok {type : TokenType} {message : Bytes} {read : Token × Parser}
    (h : s.expect type message = .ok read) : s.current.type = type ∧ read = (s.current, s.advance) := by
  rw [Parser.expect] at h
  split at h
  · rename_i hcheck
    cases h
    exact ⟨of_decide_eq_true hcheck, rfl⟩
  · cases h

/-- Arguments are plain when each of them is. -/
theorem arePlain_iff : arePlain args ↔ ∀ arg ∈ args, arg.isPlain := by
  induction args with
  | nil => exact ⟨fun _ ↦ List.forall_mem_nil _, fun _ ↦ rfl⟩
  | cons arg args ih => rw [arePlain, Bool.and_eq_true, ih, List.forall_mem_cons]

/-- Only the star stands for all rows. -/
theorem isAllRows_eq (h : isAllRows args) : args = [.wildcard {}] := by
  unfold isAllRows at h
  split at h
  · rw [of_decide_eq_true h]
  · cases h

/-- A function without DISTINCT whose arguments are of the parser. -/
theorem generated_function {name : Bytes} (hname : FunctionName name)
    (hargs : ∀ arg ∈ args, arg.isPlain → arg.Generated) (hplain : (Expr.function name args false []).isPlain) :
    (Expr.function name args false []).Generated := by
  rw [Expr.isPlain, Bool.or_eq_true] at hplain
  rcases hplain with hall | hplain
  · rw [isAllRows_eq hall]
    exact .callAll hname
  · exact .call hname (fun arg harg ↦ hargs arg harg (arePlain_iff.1 hplain arg harg)) fun h ↦ nomatch h

/-! ### Operators -/

/-- A binary expression parses plainly when its operands do. -/
theorem binary_parsesPlain {op : BinaryOperator} {l r : Expr} {t u v : Parser} (hop : op.isKnown)
    (hl : ParsesPlain s l t) (hr : ParsesPlain u r v) (hu : t.IsSpelled → u.IsSpelled) :
    ParsesPlain s (.binary op l r []) v := by
  intro hs
  obtain ⟨ht, -, hleft⟩ := hl hs
  obtain ⟨hv, -, hright⟩ := hr (hu ht)
  refine ⟨hv, rfl, fun hplain ↦ ?_⟩
  rw [Expr.isPlain, Bool.and_eq_true] at hplain
  exact .binary hop (hleft hplain.1) (hright hplain.2)

/-- A grade of binary operators goes on plainly. -/
theorem operatorAt_extends {types : List TokenType} (htypes : ∀ type ∈ types, type ∈ operatorTypes) :
    (Grade.left (operatorAt types)).Extends ParsesPlain := by
  intro s l t f u r v hl hoperator hr hs
  rw [operatorAt] at hoperator
  split at hoperator
  · rename_i hany
    cases hoperator
    obtain ⟨type, htype, hcheck⟩ := List.any_eq_true.1 hany
    have hknown := ((hl hs).1 t.current List.mem_cons_self).operator (of_decide_eq_true hcheck ▸ htypes type htype)
    exact binary_parsesPlain hknown hl hr Parser.IsSpelled.advance hs
  · cases hoperator

/-- A grade of one keyword goes on plainly. -/
theorem keywordAt_extends {type : TokenType} {op : BinaryOperator} (hop : op.isKnown) {operator : BinaryAt Parser Expr}
    (hoperator : ∀ parser, operator parser =
      if parser.check type then some (fun left right ↦ .binary op left right [], parser.advance) else none) :
    (Grade.left operator).Extends ParsesPlain := by
  intro s l t f u r v hl hread hr
  rw [hoperator] at hread
  split at hread
  · cases hread
    exact binary_parsesPlain hop hl hr Parser.IsSpelled.advance
  · cases hread

/-- Every grade of the grammar goes on plainly. -/
theorem exprGrades_extend : ∀ grade ∈ exprGrades, grade.Extends ParsesPlain := by
  intro grade hgrade
  simp only [exprGrades, List.mem_cons, List.not_mem_nil, or_false] at hgrade
  rcases hgrade with rfl | rfl | rfl | rfl | rfl | rfl | rfl
  · exact keywordAt_extends rfl fun _ ↦ rfl
  · exact keywordAt_extends rfl fun _ ↦ rfl
  · intro s f u a t hread ha hs
    rw [notAt] at hread
    split at hread
    · cases hread
      obtain ⟨ht, -, hoperand⟩ := ha hs.advance
      exact ⟨ht, rfl, fun hplain ↦ .not (hoperand hplain)⟩
    · cases hread
  · exact operatorAt_extends (by decide)
  · exact operatorAt_extends (by decide)
  · exact operatorAt_extends (by decide)
  · intro s f u a t hread ha hs
    rw [negAt] at hread
    split at hread
    · cases hread
      obtain ⟨ht, hsigned, hoperand⟩ := ha hs.advance
      exact ⟨ht, rfl, fun hplain ↦ .neg (hoperand hplain) hsigned⟩
    · cases hread

/-! ### Functions and names -/

section Functions

variable {parseSelect parseEraExpr parse : ExprParser} (h : Ensures parse ParsesPlain) (fuel : ℕ)
include h

/-- Arguments parse plainly one after the other. -/
theorem separatedList_parsesArgs : ∀ s args t, separatedList commaAt parse .exhausted fuel s = .ok (args, t) →
    ParsesArgs s args t := by
  refine h.separatedList (fun s e t hparses hs ↦ ?_) (fun s args t u e v hbefore hcomma hparses hs ↦ ?_) fuel
  · obtain ⟨ht, -, hplain⟩ := hparses hs
    exact ⟨ht, List.forall_mem_singleton.2 hplain⟩
  · rw [commaAt] at hcomma
    split at hcomma
    · cases hcomma
      obtain ⟨ht, hargs⟩ := hbefore hs
      obtain ⟨hv, -, hplain⟩ := hparses ht.advance
      exact ⟨hv, List.forall_mem_append.2 ⟨hargs, List.forall_mem_singleton.2 hplain⟩⟩
    · cases hcomma

/-- A call parses plainly when its arguments do. -/
theorem parseFunctionCall_parsesPlain {name : Bytes} (hname : FunctionName name) :
    Ensures (parseFunctionCall parse fuel name) ParsesPlain := by
  intro s e t hread hs
  rw [parseFunctionCall] at hread
  obtain ⟨opening, hopening, hread⟩ := Except.bind_eq_ok.1 hread
  obtain ⟨-, rfl⟩ := expect_eq_ok hopening
  have hopened := hs.advance
  dsimp only at hread
  split at hread
  · obtain ⟨closing, hclosing, hread⟩ := Except.bind_eq_ok.1 hread
    obtain ⟨-, rfl⟩ := expect_eq_ok hclosing
    cases hread
    exact ⟨hopened.advance.advance, rfl, fun _ ↦ .callAll hname⟩
  split at hread
  · obtain ⟨argument, hargument, hread⟩ := Except.bind_eq_ok.1 hread
    obtain ⟨closing, hclosing, hread⟩ := Except.bind_eq_ok.1 hread
    obtain ⟨-, rfl⟩ := expect_eq_ok hclosing
    cases hread
    obtain ⟨ht, -, hplain⟩ := h _ _ _ hargument hopened.advance
    refine ⟨ht.advance, rfl, fun hcall ↦ ?_⟩
    rw [Expr.isPlain, Bool.not_true, Bool.false_and, Bool.false_or, arePlain, arePlain, Bool.and_true] at hcall
    exact .call hname (List.forall_mem_singleton.2 (hplain hcall)) fun _ ↦ List.cons_ne_nil _ _
  split at hread
  · cases hread
    exact ⟨hopened.advance, rfl, generated_function hname (List.forall_mem_nil _)⟩
  · obtain ⟨args, hargs, hread⟩ := Except.bind_eq_ok.1 hread
    obtain ⟨closing, hclosing, hread⟩ := Except.bind_eq_ok.1 hread
    obtain ⟨-, rfl⟩ := expect_eq_ok hclosing
    cases hread
    obtain ⟨ht, hplain⟩ := separatedList_parsesArgs h fuel _ _ _ hargs hopened
    exact ⟨ht.advance, rfl, generated_function hname hplain⟩

/-- A column or a call parses plainly. -/
theorem parseName_parsesPlain {name : Bytes} (hname : Sql.isWord name) : Ensures (parseName parse fuel name) ParsesPlain := by
  intro s e t hread hs
  rw [parseName] at hread
  split at hread
  · dsimp only at hread
    split at hread
    · cases hread
      exact ⟨hs.advance.advance, rfl, fun hplain ↦ nomatch hplain⟩
    · obtain ⟨column, hcolumn, hread⟩ := Except.bind_eq_ok.1 hread
      obtain ⟨htype, rfl⟩ := expect_eq_ok hcolumn
      have hword := (hs.advance _ List.mem_cons_self).identifier htype
      dsimp only at hread
      split at hread
      · exact parseFunctionCall_parsesPlain h fuel (.qualified hname hword) _ _ _ hread hs.advance.advance
      · cases hread
        exact ⟨hs.advance.advance, rfl, fun _ ↦ .qualified hname hword⟩
  · split at hread
    · exact parseFunctionCall_parsesPlain h fuel (.word hname) _ _ _ hread hs
    · cases hread
      exact ⟨hs, rfl, fun _ ↦ .column hname⟩

end Functions

/-! ### Expressions -/

/-- The integer of a token is not negative. -/
theorem stoll_nonneg {text : Bytes} {value : Int64} (h : stoll text = .ok value) : 0 ≤ value.toInt := by
  rw [stoll] at h
  split at h
  · cases h
  · split at h
    · cases h
    · rename_i hlarge
      cases h
      rw [Int64.toInt_ofNat_of_lt (Nat.not_le.1 hlarge)]
      exact Int.natCast_nonneg _

/-- The double of a token has no sign. -/
theorem stod_signBit {text : Bytes} {bits : UInt64} (h : stod text = .ok bits) : signBit bits = false := by
  rw [stod] at h
  split at h
  · cases h
  · rename_i hrange
    cases h
    rw [not_or, Nat.not_le] at hrange
    apply decide_eq_false
    rw [Nat.not_le, Nat.toUInt64, UInt64.toNat_ofNat']
    omega

section Parser

variable {parseSelect parseEraExpr : ExprParser} (hselect : Ensures parseSelect ParsesPlain)
  (hera : Ensures parseEraExpr ParsesPlain)
include hselect

/-- An expression in parentheses parses plainly, and so does a subquery. -/
theorem parseParenthesized_parsesPlain {parse : ExprParser} (h : Ensures parse ParsesPlain) :
    Ensures (parseParenthesized parseSelect parse) ParsesPlain := by
  intro s e t hread hs
  have hclosed {inner : Expr × Parser} (hparses : ParsesPlain s inner.1 inner.2)
      (hread : (inner.2.expect .rparen (lit "Expected ')'") >>= fun closing ↦ .ok (inner.1, closing.2)) = .ok (e, t)) :
      t.IsSpelled ∧ e.isSigned = false ∧ (e.isPlain → e.Generated) := by
    obtain ⟨closing, hclosing, hread⟩ := Except.bind_eq_ok.1 hread
    obtain ⟨-, rfl⟩ := expect_eq_ok hclosing
    cases hread
    obtain ⟨ht, hsigned, hplain⟩ := hparses hs
    exact ⟨ht.advance, hsigned, hplain⟩
  rw [parseParenthesized] at hread
  split at hread
  · obtain ⟨inner, hinner, hread⟩ := Except.bind_eq_ok.1 hread
    exact hclosed (hselect _ _ _ hinner) hread
  · obtain ⟨inner, hinner, hread⟩ := Except.bind_eq_ok.1 hread
    exact hclosed (h _ _ _ hinner) hread

include hera

/-- A primary expression parses plainly. -/
theorem parsePrimaryExpr_parsesPlain {parse : ExprParser} (h : Ensures parse ParsesPlain) (fuel : ℕ) :
    Ensures (parsePrimaryExpr parseSelect parseEraExpr parse fuel) ParsesPlain := by
  intro s e t hread hs
  have hcurrent := hs s.current List.mem_cons_self
  unfold parsePrimaryExpr at hread
  dsimp only at hread
  split at hread
  · cases hvalue : stoll s.current.value with
    | error => rw [hvalue] at hread; cases hread
    | ok value =>
      rw [hvalue] at hread
      cases hread
      exact ⟨hs.advance, decide_eq_false (not_lt.2 (stoll_nonneg hvalue)), fun _ ↦ .literal _⟩
  · cases hvalue : stod s.current.value with
    | error => rw [hvalue] at hread; cases hread
    | ok bits =>
      rw [hvalue] at hread
      cases hread
      exact ⟨hs.advance, stod_signBit hvalue, fun _ ↦ .literal _⟩
  · cases hread
    exact ⟨hs.advance, rfl, fun _ ↦ .literal _⟩
  · cases hread
    exact ⟨hs.advance, rfl, fun _ ↦ .literal _⟩
  -- A parenthesis holds an expression or a subquery, which is not plain.
  · exact parseParenthesized_parsesPlain hselect h _ _ _ hread hs.advance
  · cases hread
    exact ⟨hs.advance, rfl, fun hplain ↦ nomatch hplain⟩
  · exact hera _ _ _ hread hs.advance
  · rename_i htype
    exact parseName_parsesPlain h fuel (hcurrent.identifier htype) _ _ _ hread hs.advance
  · split at hread
    · rename_i hfunction
      exact parseFunctionCall_parsesPlain h fuel (hcurrent.function hfunction) _ _ _ hread hs.advance
    · cases hread

/-- What the parser makes is an expression that SQL is generated from, as far as it is made from literals, columns,
operators and functions. -/
theorem parseExpr_parsesPlain (fuel : ℕ) : Ensures (parseExpr parseSelect parseEraExpr fuel) ParsesPlain := by
  induction fuel with
  | zero => exact fun _ _ _ hread ↦ nomatch hread
  | succ fuel ih =>
    have hgrades : Ensures (readGrades .exhausted
        (fun fuel' ↦ parsePrimaryExpr parseSelect parseEraExpr (parseExpr parseSelect parseEraExpr fuel) fuel')
        exprGrades fuel) ParsesPlain :=
      Ensures.readGrades (parsePrimaryExpr_parsesPlain hselect hera ih) exprGrades_extend fuel
    exact hgrades

end Parser

/-! ### Nested queries and window functions -/

/-- A parser of nested queries: it makes a nested query, when it does not throw, and has gone past some tokens. -/
def selectParser (tokens : Parser → Except ParseFailure ℕ) : ExprParser := fun parser ↦
  (tokens parser).map fun n ↦ (.subquery, Parser.advance^[n] parser)

/-- What `parseEraExpr` has read of a `WindowFunc`, in some number of tokens. -/
structure EraRead where
  partitionBy : List Expr
  orderBy : List (Expr × Bool)
  tokens : ℕ

/-- `parseEraExpr`, over what it reads. -/
def eraParser (read : Parser → Except ParseFailure EraRead) : ExprParser := fun parser ↦
  (read parser).map fun era ↦
    (.window (lit "RANK") era.partitionBy era.orderBy [], Parser.advance^[era.tokens] parser)

/-- Spelled tokens stay so however far the parser advances. -/
theorem Parser.IsSpelled.iterate (h : s.IsSpelled) (n : ℕ) : (Parser.advance^[n] s).IsSpelled := by
  induction n with
  | zero => exact h
  | succ n ih =>
    rw [Function.iterate_succ_apply']
    exact ih.advance

/-- A subquery parses plainly: it is none of the plain expressions. -/
theorem selectParser_parsesPlain (tokens : Parser → Except ParseFailure ℕ) :
    Ensures (selectParser tokens) ParsesPlain := by
  intro s e t hread hs
  rw [selectParser] at hread
  rcases htokens : tokens s with error | n <;> rw [htokens] at hread <;> cases hread
  exact ⟨hs.iterate n, rfl, fun hplain ↦ nomatch hplain⟩

/-- A window parses plainly: it is none of the plain expressions either. -/
theorem eraParser_parsesPlain (read : Parser → Except ParseFailure EraRead) :
    Ensures (eraParser read) ParsesPlain := by
  intro s e t hread hs
  rw [eraParser] at hread
  rcases hera : read s with error | era <;> rw [hera] at hread <;> cases hread
  exact ⟨hs.iterate era.tokens, rfl, fun hplain ↦ nomatch hplain⟩

/-- The parser makes an expression that SQL is generated from out of a source whose expression is made from literals,
columns, operators and functions, whatever the parsers of nested queries and of window functions read. -/
theorem generated_of_parsed (nested : Parser → Except ParseFailure ℕ) (era : Parser → Except ParseFailure EraRead)
    {source : Bytes} {first : Token} {tokens : List Token}
    (hsource : Lexer.tokenize source = .ok (first :: tokens)) {fuel : ℕ} {rest : Parser}
    (hparse : parseExpr (selectParser nested) (eraParser era) fuel ⟨first, tokens⟩ = .ok (e, rest))
    (hplain : e.isPlain) : e.Generated :=
  (parseExpr_parsesPlain (selectParser_parsesPlain nested) (eraParser_parsesPlain era) fuel _ _ _ hparse
    (Lexer.tokenize_spelled hsource)).2.2 hplain

/-- The tokens of `a + 1` behind the first one. -/
def sumTokens : List Token :=
  [⟨.plusOp, lit "+", 1, 3⟩, ⟨.integerLit, lit "1", 1, 5⟩, ⟨.eofToken, [], 1, 6⟩]

/-- A sum is parsed and generated. -/
theorem generated_of_parsed_sum :
    Lexer.tokenize (lit "a + 1") = .ok (⟨.identifier, lit "a", 1, 1⟩ :: sumTokens) ∧
      parseExpr (selectParser fun _ ↦ .error .exhausted) (eraParser fun _ ↦ .error .exhausted) 40
          ⟨⟨.identifier, lit "a", 1, 1⟩, sumTokens⟩ =
        .ok (.binary .add (.column { column := lit "a" }) (.literal (.int 1)) [], ⟨⟨.eofToken, [], 1, 6⟩, []⟩) ∧
      (Expr.binary .add (.column { column := lit "a" }) (.literal (.int 1)) []).Generated := by
  have hsource : Lexer.tokenize (lit "a + 1") = .ok (⟨.identifier, lit "a", 1, 1⟩ :: sumTokens) := by decide
  have hparse : parseExpr (selectParser fun _ ↦ .error .exhausted) (eraParser fun _ ↦ .error .exhausted) 40
      ⟨⟨.identifier, lit "a", 1, 1⟩, sumTokens⟩ =
      .ok (.binary .add (.column { column := lit "a" }) (.literal (.int 1)) [], ⟨⟨.eofToken, [], 1, 6⟩, []⟩) := rfl
  exact ⟨hsource, hparse, generated_of_parsed _ _ hsource hparse rfl⟩

end SkibidiQL
