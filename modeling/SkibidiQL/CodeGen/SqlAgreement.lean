import SkibidiQL.CodeGen.SqlTexts
import SkibidiQL.Syntax.ExpressionParser

/-!
# Generated expressions read as themselves

A generated text reads as the tree it was generated from exactly when every literal and name in it does. One way, each
part of the text is read at the tightest grade of precedence. The other way, what is read has the tokens of the text
but for parentheses and commas, so that no literal and no name can have been read as another.
-/

namespace SkibidiQL

open Bytes Sql

/-! ### Names and numbers -/

variable {reserved : Bytes → Bool}

/-- The tokens of a name that is read as one. -/
def flatName (qualifier : Option Bytes) (name : Bytes) : List SqlToken :=
  match qualifier with
  | none => [.name name]
  | some qualifier => [.name qualifier, .dot, .name name]

/-- What a word can be read as. -/
theorem wordToken_cases (reserved : Bytes → Bool) (word : Bytes) :
    wordToken reserved word ∈ [.null, .not, .distinct, .operator .and, .operator .or, .reserved word, .name word] := by
  unfold wordToken
  dsimp only
  split_ifs
  all_goals simp only [List.mem_cons, true_or, or_true]

/-- No word is a real numeral. -/
theorem wordToken_ne_real (word : Bytes) (bits : ℕ) : wordToken reserved word ≠ .real bits := by
  have hcases := wordToken_cases reserved word
  intro heq
  rw [heq] at hcases
  simp only [List.mem_cons, List.not_mem_nil, reduceCtorEq, or_self] at hcases

/-- The text of a double is read as the double exactly when that is legible. -/
theorem magnitudeToken_eq_real_iff (bits : ℕ) : magnitudeToken reserved bits = .real bits ↔ isLegibleReal bits := by
  rw [magnitudeToken, isLegibleReal]
  split
  · rename_i hnan
    rw [decide_eq_false (show ¬bits < 2047 * 2 ^ 52 by omega)]
    exact iff_of_false (wordToken_ne_real _ _) Bool.false_ne_true
  · split
    · rename_i hinf
      rw [decide_eq_false (show ¬bits < 2047 * 2 ^ 52 by omega)]
      exact iff_of_false (wordToken_ne_real _ _) Bool.false_ne_true
    · rw [decide_eq_true (show bits < 2047 * 2 ^ 52 by omega), Bool.true_and, numeralToken]
      split
      · rename_i hsmall
        rw [hsmall, Bool.not_true, Bool.and_false]
        exact iff_of_false (fun h ↦ by cases h) Bool.false_ne_true
      · rename_i hsmall
        rw [Bool.not_eq_true] at hsmall
        rw [hsmall, Bool.not_false, Bool.and_true, decide_eq_true_eq, SqlToken.real.injEq]

theorem splitName_of_no_point {name : Bytes} (h : ∀ b ∈ name, b ≠ 46) : splitName name = (none, name) := by
  have htake : name.takeWhile (· != 46) = name := List.takeWhile_eq_self_iff.2 fun b hb ↦ bne_iff_ne.2 (h b hb)
  rw [splitName, htake, if_neg (Nat.lt_irrefl _)]

/-- The first point of a name ends its table. -/
theorem splitName_point {first second : Bytes} (h : ∀ b ∈ first, b ≠ 46) :
    splitName (first ++ 46 :: second) = (some first, second) := by
  have htake : (first ++ 46 :: second).takeWhile (· != 46) = first :=
    takeWhile_append_stop (fun b hb ↦ bne_iff_ne.2 (h b hb)) (by rintro _ ⟨⟩; rfl)
  rw [splitName, htake, if_pos]
  · rw [← List.drop_drop, List.drop_left]
    rfl
  · rw [List.length_append, List.length_cons]
    omega

theorem isWord_no_point {word : Bytes} (h : isWord word) : ∀ b ∈ word, b ≠ 46 := by
  obtain ⟨first, word, rfl, -, hbytes⟩ := isWord_cons h
  rintro b hb rfl
  exact absurd (hbytes 46 hb) (by decide)

/-- A qualified name splits into the table and the column it was made of. -/
theorem splitName_qualifiedName {table name : Bytes} (h : isWord table) :
    splitName (qualifiedName table name) = (some table, name) := by
  have hpoint : splitName (table ++ 46 :: name) = (some table, name) := splitName_point (isWord_no_point h)
  obtain ⟨first, word, rfl, -⟩ := isWord_cons h
  show splitName (first :: word ++ lit "." ++ name) = _
  rw [List.append_assoc]
  exact hpoint

/-- A word is legible as a name when nothing else claims it. -/
theorem isLegibleName_iff {word : Bytes} (h : isWord word) :
    isLegibleName reserved word ↔ wordToken reserved word = .name word := by
  rw [isLegibleName, h, Bool.true_and, decide_eq_true_eq]

/-- A name is read as one exactly when it is legible; one with a hyphen has tokens too many. -/
theorem nameTokens_spec (reserved : Bytes → Bool) {name : Bytes} (h : IsName name) :
    (flatName (splitName name).1 (splitName name).2).length ≤ (nameTokens reserved name).length ∧
      (nameTokens reserved name = flatName (splitName name).1 (splitName name).2 ↔
        (splitName name).1.all (isLegibleName reserved) && isLegibleName reserved (splitName name).2) := by
  rcases h with hword | ⟨first, mark, second, hfirst, hsecond, hmark, rfl⟩
  · rw [splitName_of_no_point (isWord_no_point hword), nameTokens_word hword, Option.all_none, Bool.true_and,
      isLegibleName_iff hword]
    exact ⟨le_rfl, List.singleton_inj⟩
  · rw [nameTokens_marked hfirst hmark]
    rcases hmark with rfl | rfl
    · rw [splitName_point (isWord_no_point hfirst), Option.all_some, Bool.and_eq_true, isLegibleName_iff hfirst,
        isLegibleName_iff hsecond, if_pos rfl]
      refine ⟨le_rfl, fun heq ↦ ?_, fun ⟨h1, h2⟩ ↦ by rw [h1, h2]; rfl⟩
      simp only [flatName, List.cons.injEq, true_and, and_true] at heq
      exact heq
    · have hpoint : ∀ b ∈ first ++ 45 :: second, b ≠ 46 :=
        List.forall_mem_append.2 ⟨isWord_no_point hfirst, List.forall_mem_cons.2 ⟨by decide, isWord_no_point hsecond⟩⟩
      have hhyphen : isWord (first ++ 45 :: second) = false := by
        rw [isWord, Bool.and_eq_false_iff, List.all_eq_false]
        exact .inr ⟨45, List.mem_append_right _ List.mem_cons_self, by decide⟩
      rw [splitName_of_no_point hpoint, isLegibleName, hhyphen, Bool.false_and, Bool.and_false]
      refine ⟨Nat.le_add_left 1 2, iff_of_false (fun heq ↦ ?_) Bool.false_ne_true⟩
      exact absurd (congrArg List.length heq) (by show 3 ≠ 1; decide)

/-! ### What is read has the tokens of the text -/

/-- Whether the token only groups others. -/
def SqlToken.isMark : SqlToken → Bool
  | .lparen | .rparen | .comma => true
  | _ => false

/-- The tokens but for parentheses and commas. -/
def unmarked (read : List SqlToken) : List SqlToken :=
  read.filter fun token ↦ !token.isMark

mutual

/-- The tokens of a tree but for parentheses and commas. -/
def SqlExpr.flat : SqlExpr → List SqlToken
  | .integer value => [.integer value]
  | .real bits => [.real bits]
  | .string value => [.string value]
  | .null => [.null]
  | .column qualifier name => flatName qualifier name
  | .unary op operand => (if op = .not then .not else .operator .sub) :: operand.flat
  | .binary op left right => left.flat ++ .operator op :: right.flat
  | .call qualifier name distinct args =>
    flatName qualifier name ++ ((if distinct then [.distinct] else []) ++ flatArgs args)
  | .star => [.operator .mul]
  | .other => []

/-- The tokens of the arguments of a function but for parentheses and commas. -/
def flatArgs : List SqlExpr → List SqlToken
  | [] => []
  | arg :: args => arg.flat ++ flatArgs args

end

theorem unmarked_append (front back : List SqlToken) : unmarked (front ++ back) = unmarked front ++ unmarked back :=
  List.filter_append ..

theorem unmarked_cons {token : SqlToken} (h : token.isMark = false) (read : List SqlToken) :
    unmarked (token :: read) = token :: unmarked read :=
  List.filter_cons_of_pos (by rw [h]; rfl)

theorem unmarked_mark {token : SqlToken} (h : token.isMark) (read : List SqlToken) :
    unmarked (token :: read) = unmarked read :=
  List.filter_cons_of_neg (by rw [h]; exact Bool.false_ne_true)

/-- Arguments are flattened one list after the other. -/
theorem flatArgs_append (front back : List SqlExpr) : flatArgs (front ++ back) = flatArgs front ++ flatArgs back := by
  induction front with
  | nil => rfl
  | cons arg front ih => rw [List.cons_append, flatArgs, ih, flatArgs, List.append_assoc]

/-- Between two states of the reader stand the tokens of the tree. -/
def Spans (s : List SqlToken) (expression : SqlExpr) (t : List SqlToken) : Prop :=
  unmarked s = expression.flat ++ unmarked t

/-- Between two states of the reader stand the tokens of the arguments. -/
def SpansArgs (s : List SqlToken) (args : List SqlExpr) (t : List SqlToken) : Prop :=
  unmarked s = flatArgs args ++ unmarked t

/-- A binary operator spans its operands and its own token. -/
theorem binaryAt_extends (ops : List BinaryOperator) : (Grade.left (binaryAt ops)).Extends Spans := by
  intro s l t f u r v hl hoperator hr
  unfold binaryAt at hoperator
  split at hoperator
  · split at hoperator
    · cases hoperator
      rw [Spans, hl, unmarked_cons rfl, hr, SqlExpr.flat, List.append_assoc, List.cons_append]
    · cases hoperator
  · cases hoperator

/-- `NOT` spans its operand and its own token. -/
theorem notAt_extends : (Grade.before Sql.notAt).Extends Spans := by
  intro s f u a t hoperator ha
  unfold Sql.notAt at hoperator
  split at hoperator
  · cases hoperator
    rw [Spans, unmarked_cons rfl, ha]
    rfl
  · cases hoperator

/-- The minus spans its operand and its own token. -/
theorem negAt_extends : (Grade.before Sql.negAt).Extends Spans := by
  intro s f u a t hoperator ha
  unfold Sql.negAt at hoperator
  split at hoperator
  · cases hoperator
    rw [Spans, unmarked_cons rfl, ha]
    rfl
  · cases hoperator

/-- Every grade of the grammar spans what it reads. -/
theorem grades_extend : ∀ grade ∈ grades, grade.Extends Spans := by
  intro grade hgrade
  simp only [grades, List.mem_cons, List.not_mem_nil, or_false] at hgrade
  rcases hgrade with rfl | rfl | rfl | rfl | rfl | rfl | rfl | rfl | rfl
  · exact binaryAt_extends _
  · exact binaryAt_extends _
  · exact notAt_extends
  · exact binaryAt_extends _
  · exact binaryAt_extends _
  · exact binaryAt_extends _
  · exact binaryAt_extends _
  · exact binaryAt_extends _
  · exact negAt_extends

/-- A closing parenthesis is read where one stands. -/
theorem closed_eq_ok {α : Type} {a b : α} {s t : List SqlToken} (h : closed (a, s) = .ok (b, t)) :
    a = b ∧ s = .rparen :: t := by
  unfold closed at h
  split at h
  · rename_i heq
    cases h
    cases heq
    exact ⟨rfl, rfl⟩
  · cases h

section Reader

variable {read : ExprReader} (h : Ensures read Spans) (fuel : ℕ)
include h

/-- The arguments read are the tokens that were taken for them. -/
theorem readArgs_spans {s t : List SqlToken} {args : List SqlExpr} (hread : readArgs read fuel s = .ok (args, t)) :
    SpansArgs s args t := by
  rw [readArgs] at hread
  cases hlist : separatedList Sql.commaAt read () fuel s with
  | error => rw [hlist] at hread; cases hread
  | ok list =>
    rw [hlist] at hread
    obtain ⟨rfl, hrest⟩ := closed_eq_ok hread
    have hspans : SpansArgs s list.1 list.2 := by
      refine h.separatedList (fun s a t ha ↦ ?_) (fun s as t u a v has hcomma ha ↦ ?_) fuel s list.1 list.2 hlist
      · rw [SpansArgs, ha, flatArgs, flatArgs, List.append_nil]
      · unfold Sql.commaAt at hcomma
        split at hcomma
        · cases hcomma
          rw [SpansArgs, has, unmarked_mark rfl, ha, flatArgs_append, flatArgs, flatArgs, List.append_nil,
            List.append_assoc]
        · cases hcomma
    rw [SpansArgs, hspans, hrest, unmarked_mark rfl]

/-- A column or a call is the tokens that were taken for it. -/
theorem readNamed_spans (qualifier : Option Bytes) (name : Bytes) {s t : List SqlToken} {expression : SqlExpr}
    (hread : readNamed read fuel qualifier name s = .ok (expression, t)) :
    flatName qualifier name ++ unmarked s = expression.flat ++ unmarked t := by
  -- Behind a name may stand a call of a star, an empty one, one with DISTINCT or without, or no call.
  unfold readNamed at hread
  split at hread
  · cases hread
    rw [unmarked_mark rfl, unmarked_cons rfl, unmarked_mark rfl, SqlExpr.flat, flatArgs, flatArgs, SqlExpr.flat,
      List.append_assoc]
    rfl
  · cases hread
    rw [unmarked_mark rfl, unmarked_mark rfl, SqlExpr.flat, flatArgs, List.append_assoc]
    rfl
  · rename_i rest
    cases hargs : readArgs read fuel rest with
    | error => rw [hargs] at hread; cases hread
    | ok args =>
      rw [hargs] at hread
      cases hread
      have hspans := readArgs_spans h fuel hargs
      rw [SpansArgs] at hspans
      rw [unmarked_mark rfl, unmarked_cons rfl, hspans, SqlExpr.flat, List.append_assoc, List.append_assoc]
      rfl
  · rename_i rest _ _ _
    cases hargs : readArgs read fuel rest with
    | error => rw [hargs] at hread; cases hread
    | ok args =>
      rw [hargs] at hread
      cases hread
      have hspans := readArgs_spans h fuel hargs
      rw [SpansArgs] at hspans
      rw [unmarked_mark rfl, hspans, SqlExpr.flat, List.append_assoc]
      rfl
  · cases hread
    rfl

/-- A primary expression is the tokens that were taken for it. -/
theorem readPrimary_spans : Ensures (readPrimary read fuel) Spans := by
  intro s a t hread
  unfold readPrimary at hread
  split at hread
  · cases hread
    rfl
  · cases hread
    rfl
  · cases hread
    rfl
  · cases hread
    rfl
  · rename_i rest
    cases hinner : read rest with
    | error => rw [hinner] at hread; cases hread
    | ok inner =>
      rw [hinner] at hread
      obtain ⟨rfl, hrest⟩ := closed_eq_ok hread
      have hspans := h rest _ _ hinner
      rw [Spans] at hspans
      rw [Spans, unmarked_mark rfl, hspans, hrest, unmarked_mark rfl]
  · rename_i qualifier name rest
    exact readNamed_spans h fuel (some qualifier) name hread
  · rename_i name rest _
    exact readNamed_spans h fuel none name hread
  · cases hread

end Reader

/-- **What is read is what stood there**: an expression is the tokens that were taken for it, marks
apart. -/
theorem readExpr_spans (fuel : ℕ) : Ensures (readExpr fuel) Spans := by
  induction fuel with
  | zero => exact fun _ _ _ hread ↦ nomatch hread
  | succ fuel ih => exact Ensures.readGrades (readPrimary_spans ih) grades_extend fuel

/-- A text that reads as an expression has its tokens, but for parentheses and commas. -/
theorem Sql.Reads.unmarked_eq {text : Bytes} {read : List SqlToken} {expression : SqlExpr}
    (h : Sql.Reads reserved text expression) (hread : Lexes reserved text read) : unmarked read = expression.flat := by
  obtain ⟨read', hlexes, N, hN⟩ := h
  obtain rfl := hread.unique hlexes
  have hspans := readExpr_spans N _ _ _ (hN N le_rfl)
  rwa [Spans, show unmarked [] = [] from rfl, List.append_nil] at hspans

/-! ### What is not legible is not read -/

/-- The text has no fewer tokens than the tree, and only legible text has the same. -/
def Covers (reserved : Bytes → Bool) (e : Expr) : Prop :=
  e.denoted.flat.length ≤ (unmarked (e.sqlTokens reserved)).length ∧
    (unmarked (e.sqlTokens reserved) = e.denoted.flat → e.isLegible reserved)

theorem wordToken_not_mark (word : Bytes) : (wordToken reserved word).isMark = false := by
  have hcases := wordToken_cases reserved word
  simp only [List.mem_cons, List.not_mem_nil, or_false] at hcases
  rcases hcases with h | h | h | h | h | h | h <;> rw [h] <;> rfl

/-- A numeral is never a mark. -/
theorem magnitudeToken_not_mark (bits : ℕ) : (magnitudeToken reserved bits).isMark = false := by
  rw [magnitudeToken]
  split
  · exact wordToken_not_mark _
  · split
    · exact wordToken_not_mark _
    · rw [numeralToken]
      split <;> rfl

/-- Names have no marks. -/
theorem unmarked_nameTokens (name : Bytes) : unmarked (nameTokens reserved name) = nameTokens reserved name := by
  have hmark (mark : UInt8) : (if mark = 46 then .dot else .operator .sub : SqlToken).isMark = false := by
    split <;> rfl
  rw [nameTokens]
  split
  · rw [unmarked_cons (wordToken_not_mark _)]
    rfl
  · rw [unmarked_cons (wordToken_not_mark _), unmarked_cons (hmark _), unmarked_cons (wordToken_not_mark _)]
    rfl

/-- Parts that are no longer than others and equal them together equal them each. -/
theorem append_inj_of_le {α : Type} {a b c d : List α} (h : c.length ≤ a.length) (h' : d.length ≤ b.length)
    (heq : a ++ b = c ++ d) : a = c ∧ b = d := by
  have hlength := congrArg List.length heq
  rw [List.length_append, List.length_append] at hlength
  exact List.append_inj heq (by omega)

/-- A literal has the tokens of its tree, and only when it is legible. -/
theorem covers_literal (value : Literal) : Covers reserved (.literal value) := by
  cases value with
  | int value =>
    refine ⟨le_of_eq ?_, fun _ ↦ rfl⟩
    rw [Expr.denoted, Literal.denoted, Expr.sqlTokens, Literal.sqlTokens, SqlExpr.signed, signTokens]
    split <;> rfl
  | float bits =>
    have htokens : unmarked (signTokens (signBit bits) ++ [magnitudeToken reserved (unsignedBits bits)]) =
        signTokens (signBit bits) ++ [magnitudeToken reserved (unsignedBits bits)] := by
      rw [unmarked_append, unmarked_cons (magnitudeToken_not_mark _), signTokens]
      split <;> rfl
    have hflat : (SqlExpr.signed (signBit bits) (.real (unsignedBits bits))).flat =
        signTokens (signBit bits) ++ [.real (unsignedBits bits)] := by
      rw [SqlExpr.signed, signTokens]
      split <;> rfl
    rw [Covers, Expr.denoted, Literal.denoted, Expr.sqlTokens, Literal.sqlTokens, htokens, hflat]
    refine ⟨by rw [List.length_append, List.length_append]; rfl, fun heq ↦ ?_⟩
    exact (magnitudeToken_eq_real_iff _).1 (List.singleton_inj.1 (List.append_cancel_left heq))
  | string value => exact ⟨le_rfl, fun _ ↦ rfl⟩
  | nul => exact ⟨le_rfl, fun _ ↦ rfl⟩
  | bool value => exact ⟨le_rfl, fun _ ↦ rfl⟩

/-- Arguments have the tokens of their trees when each of them has. -/
theorem covers_args {args : List Expr} (h : ∀ arg ∈ args, Covers reserved arg) :
    (flatArgs (denotedArgs args)).length ≤ (unmarked (argTokens reserved args)).length ∧
      (unmarked (argTokens reserved args) = flatArgs (denotedArgs args) → isLegibleArgs reserved args) := by
  induction args with
  | nil => exact ⟨le_rfl, fun _ ↦ rfl⟩
  | cons arg args ih =>
    obtain ⟨hlength, hlegible⟩ := ih fun arg harg ↦ h arg (List.mem_cons_of_mem _ harg)
    obtain ⟨hargLength, hargLegible⟩ := h arg List.mem_cons_self
    rw [argTokens, unmarked_mark rfl, unmarked_append, denotedArgs, flatArgs]
    refine ⟨by rw [List.length_append, List.length_append]; omega, fun heq ↦ ?_⟩
    obtain ⟨harg, hargs⟩ := append_inj_of_le hargLength hlength heq
    rw [isLegibleArgs, hargLegible harg, hlegible hargs]
    rfl

/-- The first token of an argument list is a comma, hence a mark. -/
theorem unmarked_tail_argTokens (args : List Expr) :
    unmarked (argTokens reserved args).tail = unmarked (argTokens reserved args) := by
  cases args with
  | nil => rfl
  | cons arg args => rw [argTokens, List.tail_cons, unmarked_mark rfl]

/-- A generated expression has no fewer tokens than its tree, and exactly these only when it is
legible. -/
theorem covers_of_generated {e : Expr} (h : e.Generated) : Covers reserved e := by
  induction h with
  | literal value => exact covers_literal value
  | @column name alias' hname =>
    have hspec := nameTokens_spec reserved (.inl hname)
    rw [splitName_of_no_point (isWord_no_point hname), Option.all_none, Bool.true_and] at hspec
    rw [Covers, Expr.sqlTokens, show qualifiedName [] name = name from rfl, unmarked_nameTokens, Expr.denoted,
      if_pos rfl, SqlExpr.flat]
    exact ⟨hspec.1, hspec.2.1⟩
  | @qualified table name alias' htable hname =>
    have hspec := nameTokens_spec reserved (isName_qualified htable hname)
    have hsplit : splitName (qualifiedName table name) = (some table, name) := splitName_qualifiedName htable
    have hne : table ≠ [] := fun heq ↦ by rw [heq] at htable; cases htable
    rw [hsplit, Option.all_some] at hspec
    rw [Covers, Expr.sqlTokens, unmarked_nameTokens, Expr.denoted, if_neg hne, SqlExpr.flat]
    refine ⟨hspec.1, fun heq ↦ ?_⟩
    rw [Expr.isLegible, decide_eq_false hne, Bool.false_or]
    exact hspec.2.1 heq
  | binary _ _ _ ihleft ihright =>
    obtain ⟨hleftLength, hleftLegible⟩ := ihleft
    obtain ⟨hrightLength, hrightLegible⟩ := ihright
    rw [Covers, Expr.sqlTokens, unmarked_mark rfl, unmarked_append, unmarked_cons rfl, unmarked_append,
      show unmarked [.rparen] = [] from rfl, List.append_nil, Expr.denoted, SqlExpr.flat]
    refine ⟨by simp only [List.length_append, List.length_cons]; omega, fun heq ↦ ?_⟩
    -- Equal token lists split where the shorter side ends, so both sides are equal.
    obtain ⟨hleft, hright⟩ := append_inj_of_le hleftLength (by simp only [List.length_cons]; omega) heq
    rw [Expr.isLegible, hleftLegible hleft, hrightLegible (List.cons_inj_right _ |>.1 hright)]
    rfl
  | not _ ih | neg _ _ ih =>
    rw [Covers, Expr.sqlTokens, unmarked_mark rfl, unmarked_cons (by rfl), unmarked_append,
      show unmarked [.rparen] = [] from rfl, List.append_nil, Expr.denoted, SqlExpr.flat]
    exact ⟨Nat.succ_le_succ ih.1, fun heq ↦ ih.2 (List.cons_inj_right _ |>.1 heq)⟩
  | @call name args distinct alias' hname _ _ ih =>
    obtain ⟨hnameLength, hnameLegible⟩ := nameTokens_spec reserved (isName_sqlFunctionName hname)
    obtain ⟨hargsLength, hargsLegible⟩ := covers_args ih
    have hdistinct : unmarked (if distinct then [.distinct] else []) = if distinct then [.distinct] else [] := by
      cases distinct <;> rfl
    rw [Covers, Expr.sqlTokens, unmarked_append, unmarked_nameTokens, unmarked_mark rfl, unmarked_append, hdistinct,
      unmarked_append, unmarked_tail_argTokens, show unmarked [.rparen] = [] from rfl, List.append_nil, Expr.denoted,
      SqlExpr.flat]
    refine ⟨by simp only [List.length_append]; omega, fun heq ↦ ?_⟩
    obtain ⟨hfunction, hrest⟩ := append_inj_of_le hnameLength (by simp only [List.length_append]; omega) heq
    rw [Expr.isLegible, hnameLegible.1 hfunction, hargsLegible (List.append_cancel_left hrest)]
    rfl
  | @callAll name alias' hname =>
    obtain ⟨hnameLength, hnameLegible⟩ := nameTokens_spec reserved (isName_sqlFunctionName hname)
    rw [Covers, Expr.sqlTokens, unmarked_append, unmarked_nameTokens, Expr.denoted, SqlExpr.flat]
    refine ⟨?_, fun heq ↦ ?_⟩
    · rw [List.length_append, List.length_append, List.length_append]
      exact Nat.add_le_add hnameLength le_rfl
    · rw [Expr.isLegible, hnameLegible.1 (List.append_cancel_right heq)]
      rfl

/-! ### What is legible is read -/

/-- The grade of a binary operator. -/
def BinaryOperator.sqlGrade : BinaryOperator → ℕ
  | .or => 0
  | .and => 1
  | .eq | .ne => 3
  | .lt | .gt | .le | .ge => 4
  | .add | .sub => 5
  | .mul | .div => 6
  | .concat => 7
  | .other _ => 9

/-- The reader of a grade, and of those behind it. -/
def sqlGradeReader (c : ℕ) : ℕ → ExprReader :=
  readGrades () (fun n ↦ readPrimary (readExpr n) n) (grades.drop c)

theorem sqlReadExpr_succ (n : ℕ) (s : List SqlToken) : readExpr (n + 1) s = sqlGradeReader 0 n s :=
  rfl

variable {s t : List SqlToken} {d l r : SqlExpr} {c p : ℕ}

/-- Behind an expression comes an operator of a looser grade, a comma or a closing parenthesis, if anything. -/
def StopsAt (c : ℕ) (t : List SqlToken) : Prop :=
  ∀ token ∈ t.head?, token = .rparen ∨ token = .comma ∨ ∃ op : BinaryOperator, token = .operator op ∧ op.sqlGrade < c

/-- Where a grade stops, its operators have ended. -/
theorem StopsAt.ends (h : StopsAt c t) {i : ℕ} (hi : c ≤ i) {grade : Grade (List SqlToken) SqlExpr}
    (hgrade : grades[i]? = some grade) : grade.Ends t := by
  have hbinary (ops : List BinaryOperator) (hops : ∀ op ∈ ops, op.sqlGrade = i) : binaryAt ops t = none := by
    unfold binaryAt
    split
    · rename_i op rest
      rw [if_neg]
      intro hmem
      rcases h (.operator op) rfl with heq | heq | ⟨op', heq, hlt⟩
      · cases heq
      · cases heq
      · cases heq
        rw [hops _ hmem] at hlt
        omega
    · rfl
  match i, hgrade with
  | 0, rfl | 1, rfl | 3, rfl | 4, rfl | 5, rfl | 6, rfl | 7, rfl => exact hbinary _ (by decide)
  | 2, rfl | 8, rfl => trivial

/-- The tokens that an expression may start with. -/
def SqlToken.opens : SqlToken → Bool
  | .integer _ | .real _ | .string _ | .null | .lparen | .name _ => true
  | .operator op => op = .sub
  | _ => false

/-- The expression starts here with a token that it may start with. -/
def OpensAt (s : List SqlToken) : Prop :=
  ∃ token rest, s = token :: rest ∧ token.opens

/-- From the grade of the minus on, an expression is read at every looser grade that nothing goes on with. -/
theorem sqlGradeReader_lower (hcp : c ≤ p) (hp : p ≤ 8) (hstart : p ≤ 2 ∨ OpensAt s) (hstops : StopsAt c t)
    (h : Yields (sqlGradeReader p) s d t) : Yields (sqlGradeReader c) s d t := by
  refine h.lower hcp fun i hi hip grade hgrade ↦ ⟨?_, hstops.ends hi hgrade⟩
  match i, hgrade with
  | 0, rfl | 1, rfl | 3, rfl | 4, rfl | 5, rfl | 6, rfl | 7, rfl => trivial
  | 2, rfl =>
    rcases hstart with hp | ⟨token, rest, rfl, hopens⟩
    · omega
    · show Sql.notAt (token :: rest) = none
      cases token <;> first | rfl | cases hopens
  | 8, rfl => omega

/-- The reader of what has no operator in front of it. -/
abbrev sqlPrimary : ℕ → ExprReader :=
  fun n ↦ readPrimary (readExpr n) n

/-- The expression is read at the grade of the minus, behind a minus or more too. -/
def ReadsTight (s : List SqlToken) (d : SqlExpr) (t : List SqlToken) : Prop :=
  GradeYields sqlPrimary (.before Sql.negAt) s d t

theorem ReadsTight.yields (h : ReadsTight s d t) : Yields (sqlGradeReader 8) s d t :=
  h.reads trivial

theorem ReadsTight.neg (h : ReadsTight s d t) : ReadsTight (.operator .sub :: s) (.unary .neg d) t :=
  h.apply rfl

/-- A primary that does not begin with a minus is tight. -/
theorem ReadsTight.of_primary (hstart : s.head? ≠ some (.operator .sub)) (h : Yields sqlPrimary s d t) :
    ReadsTight s d t := by
  refine .bare ?_ h
  unfold Sql.negAt
  split
  · exact absurd rfl hstart
  · rfl

theorem yields_readExpr (h : Yields (sqlGradeReader 0) s d t) : Yields readExpr s d t :=
  h.succ fun n ↦ sqlReadExpr_succ n s

/-- In parentheses, an expression of any grade is read at the tightest. -/
theorem ReadsTight.parens (h : Yields (sqlGradeReader 0) s d (.rparen :: t)) : ReadsTight (.lparen :: s) d t := by
  obtain ⟨N, hN⟩ := yields_readExpr h
  refine .of_primary (fun heq ↦ nomatch heq) ⟨N, fun n hn ↦ ?_⟩
  show (readExpr n s >>= closed) = _
  rw [hN n hn]
  rfl

theorem stopsAt_rparen (c : ℕ) (t : List SqlToken) : StopsAt c (.rparen :: t) := by
  rintro _ ⟨⟩
  exact .inl rfl

theorem stopsAt_comma (c : ℕ) (t : List SqlToken) : StopsAt c (.comma :: t) := by
  rintro _ ⟨⟩
  exact .inr (.inl rfl)

/-- An operator stops the grades that are tighter. -/
theorem stopsAt_operator {op : BinaryOperator} (h : op.sqlGrade < c) (t : List SqlToken) :
    StopsAt c (.operator op :: t) := by
  rintro _ ⟨⟩
  exact .inr (.inr ⟨op, rfl, h⟩)

/-- Every operator is one of those of its grade. -/
theorem binaryAt_sqlGrade {op : BinaryOperator} (h : op.isKnown) : ∃ ops, grades[op.sqlGrade]? = some (.left (binaryAt ops)) ∧
    ∀ t, binaryAt ops (.operator op :: t) = some (.binary op, t) := by
  cases op with
  | other => cases h
  | _ => exact ⟨_, rfl, fun _ ↦ rfl⟩

/-- What the operators of a grade make of the next grade is read at the grade. -/
theorem sqlGradeReader_of_grade {grade : Grade (List SqlToken) SqlExpr} (hgrade : grades[c]? = some grade)
    (h : GradeYields (sqlGradeReader (c + 1)) grade s d t) (hends : grade.Ends t) : Yields (sqlGradeReader c) s d t := by
  obtain ⟨hc, heq⟩ := List.getElem?_eq_some_iff.1 hgrade
  rw [sqlGradeReader, List.drop_eq_getElem_cons hc, heq]
  exact h.reads hends

/-- An operation in parentheses. -/
theorem ReadsTight.binary {op : BinaryOperator} {u : List SqlToken} (hop : op.isKnown) (hleft : ReadsTight s l (.operator op :: u))
    (hs : OpensAt s) (hright : ReadsTight u r (.rparen :: t)) (hu : OpensAt u) :
    ReadsTight (.lparen :: s) (.binary op l r) t := by
  obtain ⟨ops, hgrade, hoperator⟩ := binaryAt_sqlGrade hop
  have hlt : op.sqlGrade + 1 ≤ 8 := by cases op <;> first | decide | cases hop
  have hl := sqlGradeReader_lower hlt le_rfl (.inr hs) (stopsAt_operator (Nat.lt_succ_self _) u) hleft.yields
  have hr := sqlGradeReader_lower hlt le_rfl (.inr hu) (stopsAt_rparen _ t) hright.yields
  have hread := sqlGradeReader_of_grade hgrade (.combine (.operand hl) (hoperator u) hr) rfl
  exact .parens (sqlGradeReader_lower (Nat.zero_le _) (by omega) (.inr hs) (stopsAt_rparen 0 t) hread)

/-- A negated condition in parentheses. -/
theorem ReadsTight.not (h : ReadsTight s d (.rparen :: t)) (hs : OpensAt s) :
    ReadsTight (.lparen :: .not :: s) (.unary .not d) t := by
  have hoperand := sqlGradeReader_lower (by decide : 3 ≤ 8) le_rfl (.inr hs) (stopsAt_rparen 3 t) h.yields
  have hbare : GradeYields (sqlGradeReader 3) (.before Sql.notAt) s d (.rparen :: t) := by
    refine .bare ?_ hoperand
    obtain ⟨token, rest, rfl, hopens⟩ := hs
    cases token <;> first | rfl | cases hopens
  have hread : Yields (sqlGradeReader 2) (.not :: s) (.unary .not d) (.rparen :: t) :=
    sqlGradeReader_of_grade rfl (hbare.apply rfl) trivial
  exact .parens (sqlGradeReader_lower (by decide) (by decide) (.inl le_rfl) (stopsAt_rparen 0 t) hread)

theorem ReadsTight.negParens (h : ReadsTight s d (.rparen :: t)) :
    ReadsTight (.lparen :: .operator .sub :: s) (.unary .neg d) t :=
  .parens (sqlGradeReader_lower (by decide) le_rfl (.inr ⟨_, _, rfl, rfl⟩) (stopsAt_rparen 0 t) h.neg.yields)

/-! ### Names and functions -/

variable {read : ExprReader}

/-- A primary that begins with a name is a column or a call of that name. -/
theorem readPrimary_flatName (read : ExprReader) (fuel : ℕ) (qualifier : Option Bytes) (name : Bytes)
    (h : t.head? ≠ some .dot) :
    readPrimary read fuel (flatName qualifier name ++ t) = readNamed read fuel qualifier name t := by
  cases qualifier with
  | some qualifier => rfl
  | none =>
    rcases t with _ | ⟨token, rest⟩
    · rfl
    · cases token with
      | dot => exact absurd rfl h
      | _ => rfl

/-- A name that is not followed by a parenthesis is a column. -/
theorem readNamed_column (read : ExprReader) (fuel : ℕ) (qualifier : Option Bytes) (name : Bytes) (h : StopsAt c t) :
    readNamed read fuel qualifier name t = .ok (.column qualifier name, t) := by
  rcases t with _ | ⟨token, rest⟩
  · rfl
  · rcases h token rfl with rfl | rfl | ⟨op, rfl, -⟩ <;> rfl

theorem StopsAt.head_ne_dot (h : StopsAt c t) : t.head? ≠ some .dot := by
  intro hdot
  rcases h .dot hdot with heq | heq | ⟨op, heq, -⟩ <;> cases heq

/-- A name in front of what stands behind it. -/
theorem opensAt_flatName (qualifier : Option Bytes) (name : Bytes) (t : List SqlToken) :
    OpensAt (flatName qualifier name ++ t) := by
  cases qualifier with
  | none => exact ⟨_, _, rfl, rfl⟩
  | some qualifier => exact ⟨_, _, rfl, rfl⟩

theorem flatName_ne_sub (qualifier : Option Bytes) (name : Bytes) (t : List SqlToken) :
    (flatName qualifier name ++ t).head? ≠ some (.operator .sub) := by
  cases qualifier <;> exact fun heq ↦ nomatch heq

/-- The tokens are read as the expression wherever nothing goes on with it. -/
structure ReadsBack (reserved : Bytes → Bool) (e : Expr) : Prop where
  opens : ∀ t, OpensAt (e.sqlTokens reserved ++ t)
  reads : ∀ t, StopsAt 10 t → ReadsTight (e.sqlTokens reserved ++ t) e.denoted t

/-- An expression that reads back is read between any two stops. -/
theorem ReadsBack.yields {e : Expr} (h : ReadsBack reserved e) (hstops : StopsAt 10 t) (hstops' : StopsAt 0 t) :
    Yields readExpr (e.sqlTokens reserved ++ t) e.denoted t :=
  yields_readExpr (sqlGradeReader_lower (Nat.zero_le 8) le_rfl (.inr (h.opens t)) hstops' (h.reads t hstops).yields)

variable {args : List Expr}

/-- The rest of an argument list stops every grade. -/
theorem stopsAt_args (reserved : Bytes → Bool) (c : ℕ) (args : List Expr) (t : List SqlToken) :
    StopsAt c (argTokens reserved args ++ .rparen :: t) := by
  cases args with
  | nil => exact stopsAt_rparen c t
  | cons arg args => exact stopsAt_comma c _

/-- Arguments that read back are read one after the other. -/
theorem listYields_args (h : ∀ arg ∈ args, ReadsBack reserved arg) {before : List SqlExpr}
    (hbefore : ListYields Sql.commaAt readExpr s before (argTokens reserved args ++ .rparen :: t)) :
    ListYields Sql.commaAt readExpr s (before ++ denotedArgs args) (.rparen :: t) := by
  induction args generalizing before with
  | nil =>
    rw [denotedArgs, List.append_nil]
    exact hbefore
  | cons arg args ih =>
    rw [argTokens, List.cons_append, List.append_assoc] at hbefore
    have harg := (h arg List.mem_cons_self).yields (stopsAt_args reserved 10 args t) (stopsAt_args reserved 0 args t)
    have hmore := ih (fun arg harg ↦ h arg (List.mem_cons_of_mem _ harg)) (hbefore.snoc rfl harg)
    rw [denotedArgs]
    rwa [List.append_assoc] at hmore

/-- The arguments of a function are read up to its closing parenthesis. -/
theorem yields_args (h : ∀ arg ∈ args, ReadsBack reserved arg) (hne : args ≠ []) :
    Yields (fun n ↦ readArgs (readExpr n) n) ((argTokens reserved args).tail ++ .rparen :: t) (denotedArgs args) t := by
  obtain ⟨arg, args, rfl⟩ := List.exists_cons_of_ne_nil hne
  have harg := (h arg List.mem_cons_self).yields (stopsAt_args reserved 10 args t) (stopsAt_args reserved 0 args t)
  have hlist := listYields_args (fun arg harg ↦ h arg (List.mem_cons_of_mem _ harg)) (.single harg)
  obtain ⟨N, hN⟩ : ∃ N, ∀ n ≥ N, separatedList Sql.commaAt (readExpr n) () n
    (arg.sqlTokens reserved ++ (argTokens reserved args ++ .rparen :: t)) =
      .ok ([arg.denoted] ++ denotedArgs args, .rparen :: t) := hlist.reads rfl
  refine ⟨N, fun n hn ↦ ?_⟩
  rw [argTokens, List.tail_cons, List.append_assoc]
  show (separatedList Sql.commaAt (readExpr n) () n _ >>= closed) = _
  rw [hN n hn]
  rfl

/-- A call whose arguments read back is read back. -/
theorem yields_sqlCall {qualifier : Option Bytes} {name : Bytes} {distinct : Bool} (h : ∀ arg ∈ args, ReadsBack reserved arg)
    (hdistinct : distinct → args ≠ []) :
    Yields (fun n ↦ readNamed (readExpr n) n qualifier name)
      (.lparen :: ((if distinct then [.distinct] else []) ++ ((argTokens reserved args).tail ++ .rparen :: t)))
      (.call qualifier name distinct (denotedArgs args)) t := by
  rcases eq_or_ne args [] with rfl | hne
  · cases distinct with
    | false => exact .of_eq fun n ↦ rfl
    | true => exact absurd rfl (hdistinct rfl)
  obtain ⟨N, hN⟩ : ∃ N, ∀ n ≥ N, readArgs (readExpr n) n ((argTokens reserved args).tail ++ .rparen :: t) =
    .ok (denotedArgs args, t) := yields_args h hne
  refine ⟨N, fun n hn ↦ ?_⟩
  cases distinct with
  | true =>
    show (readArgs (readExpr n) n ((argTokens reserved args).tail ++ .rparen :: t) >>= _) = _
    rw [hN n hn]
    rfl
  | false =>
    -- Neither a star nor DISTINCT nor a closing parenthesis starts an argument.
    have hopens : OpensAt ((argTokens reserved args).tail ++ .rparen :: t) := by
      obtain ⟨arg, args, rfl⟩ := List.exists_cons_of_ne_nil hne
      rw [argTokens, List.tail_cons, List.append_assoc]
      exact (h arg List.mem_cons_self).opens _
    obtain ⟨token, rest, heq, htoken⟩ := hopens
    have hread : readNamed (readExpr n) n qualifier name (.lparen :: token :: rest) =
        readArgs (readExpr n) n (token :: rest) >>= fun result ↦
          .ok (.call qualifier name false result.1, result.2) := by
      cases token with
      | operator op => cases op <;> first | rfl | cases htoken
      | _ => first | rfl | cases htoken
    show readNamed (readExpr n) n qualifier name (.lparen :: ((argTokens reserved args).tail ++ .rparen :: t)) = _
    rw [heq, hread, ← heq, hN n hn]
    rfl

/-! ### The theorem -/

/-- A legible literal reads back. -/
theorem readsBack_literal {value : Literal} (h : (Expr.literal value).isLegible reserved) :
    ReadsBack reserved (.literal value) := by
  have hsign (negative : Bool) (token : SqlToken) {number : SqlExpr} (hopens : token.opens)
      (hread : ∀ t, ReadsTight (token :: t) number t) :
      (∀ t, OpensAt (signTokens negative ++ [token] ++ t)) ∧
        ∀ t, ReadsTight (signTokens negative ++ [token] ++ t) (.signed negative number) t := by
    cases negative with
    | false => exact ⟨fun t ↦ ⟨_, _, rfl, hopens⟩, hread⟩
    | true => exact ⟨fun t ↦ ⟨_, _, rfl, rfl⟩, fun t ↦ (hread t).neg⟩
  have hleaf (token : SqlToken) {e : SqlExpr} (hsub : token ≠ .operator .sub)
      (hread : ∀ n t, readPrimary (readExpr n) n (token :: t) = .ok (e, t)) (t : List SqlToken) :
      ReadsTight (token :: t) e t :=
    .of_primary (fun heq ↦ hsub (Option.some.inj heq)) (.of_eq fun n ↦ hread n t)
  cases value with
  | int value =>
    obtain ⟨hopens, hreads⟩ := hsign (value.toInt < 0) (.integer value.toInt.natAbs) rfl
      (hleaf _ (by simp) fun _ _ ↦ rfl)
    exact ⟨hopens, fun t _ ↦ hreads t⟩
  | float bits =>
    have htoken : magnitudeToken reserved (unsignedBits bits) = .real (unsignedBits bits) :=
      (magnitudeToken_eq_real_iff _).2 h
    obtain ⟨hopens, hreads⟩ := hsign (signBit bits) (.real (unsignedBits bits)) rfl
      (hleaf _ (by simp) fun _ _ ↦ rfl)
    constructor
    · rw [Expr.sqlTokens, Literal.sqlTokens, htoken]
      exact hopens
    · rw [Expr.sqlTokens, Literal.sqlTokens, htoken]
      exact fun t _ ↦ hreads t
  | string value => exact ⟨fun t ↦ ⟨_, _, rfl, rfl⟩, fun t _ ↦ hleaf (.string value) (by simp) (fun _ _ ↦ rfl) t⟩
  | nul => exact ⟨fun t ↦ ⟨_, _, rfl, rfl⟩, fun t _ ↦ hleaf .null (by simp) (fun _ _ ↦ rfl) t⟩
  | bool value => exact ⟨fun t ↦ ⟨_, _, rfl, rfl⟩, fun t _ ↦ hleaf (.integer (if value then 1 else 0)) (by simp) (fun _ _ ↦ rfl) t⟩

/-- A column whose name is read as one. -/
theorem readsBack_column {column : ColumnRef} {qualifier : Option Bytes} {name : Bytes}
    (htokens : nameTokens reserved (qualifiedName column.table column.column) = flatName qualifier name)
    (hdenoted : (Expr.column column).denoted = .column qualifier name) : ReadsBack reserved (.column column) := by
  constructor
  · intro t
    rw [Expr.sqlTokens, htokens]
    exact opensAt_flatName qualifier name t
  · intro t hstops
    rw [Expr.sqlTokens, htokens, hdenoted]
    refine .of_primary (flatName_ne_sub qualifier name t) (.of_eq fun n ↦ ?_)
    show readPrimary (readExpr n) n _ = _
    rw [readPrimary_flatName _ _ _ _ hstops.head_ne_dot, readNamed_column _ _ _ _ hstops]

/-- A function whose name is read as one, when what stands behind the name is read as its arguments. -/
theorem readsBack_function {name : Bytes} {args : List Expr} {distinct : Bool} {alias' : Bytes} (hname : FunctionName name)
    (hlegible : (Expr.function name args distinct alias').isLegible reserved)
    (hread : ∀ t, Yields (fun n ↦ readNamed (readExpr n) n (splitName (sqlFunctionName name)).1
        (splitName (sqlFunctionName name)).2)
      (.lparen :: ((if distinct then [.distinct] else []) ++ ((argTokens reserved args).tail ++ .rparen :: t)))
      (Expr.function name args distinct alias').denoted t) :
    ReadsBack reserved (.function name args distinct alias') := by
  rw [Expr.isLegible, Bool.and_eq_true] at hlegible
  have htokens := (nameTokens_spec reserved (isName_sqlFunctionName hname)).2.2 hlegible.1
  constructor
  · intro t
    rw [Expr.sqlTokens, htokens, List.append_assoc]
    exact opensAt_flatName _ _ _
  · intro t _
    obtain ⟨N, hN⟩ := hread t
    rw [Expr.sqlTokens, htokens, List.append_assoc]
    refine .of_primary (flatName_ne_sub _ _ _) ⟨N, fun n hn ↦ ?_⟩
    show readPrimary (readExpr n) n _ = _
    rw [readPrimary_flatName]
    · simp only [List.cons_append, List.append_assoc, List.nil_append]
      exact hN n hn
    · simp

/-- Arguments are legible when each of them is. -/
theorem isLegibleArgs_iff {args : List Expr} :
    isLegibleArgs reserved args ↔ ∀ arg ∈ args, arg.isLegible reserved := by
  induction args with
  | nil => exact ⟨fun _ ↦ List.forall_mem_nil _, fun _ ↦ rfl⟩
  | cons arg args ih => rw [isLegibleArgs, Bool.and_eq_true, ih, List.forall_mem_cons]

/-- **A legible expression reads back**: the text written for it is read as the expression it
denotes. -/
theorem readsBack_of_legible {e : Expr} (h : e.Generated) (hlegible : e.isLegible reserved) : ReadsBack reserved e := by
  induction h with
  | literal value => exact readsBack_literal hlegible
  | @column name alias' hname =>
    have hname' : isLegibleName reserved name := hlegible
    rw [isLegibleName_iff hname] at hname'
    have htokens : nameTokens reserved (qualifiedName [] name) = flatName none name := by
      rw [show qualifiedName [] name = name from rfl, nameTokens_word hname, hname']
      rfl
    exact readsBack_column htokens rfl
  | @qualified table name alias' htable hname =>
    have hne : table ≠ [] := fun heq ↦ by rw [heq] at htable; cases htable
    have hspec := (nameTokens_spec reserved (isName_qualified htable hname)).2
    rw [splitName_qualifiedName htable, Option.all_some] at hspec
    rw [Expr.isLegible, decide_eq_false hne, Bool.false_or] at hlegible
    refine readsBack_column (hspec.2 hlegible) ?_
    rw [Expr.denoted, if_neg hne]
  -- Parentheses go around every operator, so the operands are read at the lowest grade.
  | @binary op left right alias' hop _ _ ihleft ihright =>
    rw [Expr.isLegible, Bool.and_eq_true] at hlegible
    have hleft := ihleft hlegible.1
    have hright := ihright hlegible.2
    refine ⟨fun t ↦ ⟨_, _, rfl, rfl⟩, fun t _ ↦ ?_⟩
    rw [Expr.sqlTokens, Expr.denoted]
    simp only [List.cons_append, List.append_assoc, List.nil_append]
    exact .binary hop (hleft.reads _ (stopsAt_operator (by cases op <;> first | decide | cases hop) _)) (hleft.opens _)
      (hright.reads _ (stopsAt_rparen 10 t)) (hright.opens _)
  | not _ ih =>
    have hoperand := ih hlegible
    refine ⟨fun t ↦ ⟨_, _, rfl, rfl⟩, fun t _ ↦ ?_⟩
    rw [Expr.sqlTokens, Expr.denoted]
    simp only [List.cons_append, List.append_assoc, List.nil_append]
    exact (hoperand.reads _ (stopsAt_rparen 10 t)).not (hoperand.opens _)
  | neg _ _ ih =>
    have hoperand := ih hlegible
    refine ⟨fun t ↦ ⟨_, _, rfl, rfl⟩, fun t _ ↦ ?_⟩
    rw [Expr.sqlTokens, Expr.denoted]
    simp only [List.cons_append, List.append_assoc, List.nil_append]
    exact (hoperand.reads _ (stopsAt_rparen 10 t)).negParens
  | @call name args distinct alias' hname _ hdistinct ih =>
    have hargs : isLegibleArgs reserved args := by
      rw [Expr.isLegible, Bool.and_eq_true] at hlegible
      exact hlegible.2
    have hall : ∀ arg ∈ args, ReadsBack reserved arg := fun arg harg ↦ ih arg harg (isLegibleArgs_iff.1 hargs arg harg)
    exact readsBack_function hname hlegible fun t ↦ yields_sqlCall hall hdistinct
  | callAll hname => exact readsBack_function hname hlegible fun t ↦ .of_eq fun n ↦ rfl

/-- The text generated for an expression reads as the expression exactly when it is legible: every double in it is
finite and, at six significant digits, neither another double nor a whole number below a million; and every name is
one to SQL. -/
theorem genExpr_reads_iff (reserved : Bytes → Bool) (genSelect : Bytes) {e : Expr} (h : e.Generated) :
    Sql.Reads reserved (genExpr genSelect e) e.denoted ↔ e.isLegible reserved := by
  have hlexes : Lexes reserved (genExpr genSelect e) (e.sqlTokens reserved) := by
    have hbefore : Lexes reserved (genExpr genSelect e ++ []) (e.sqlTokens reserved ++ []) :=
      lexes_genExpr h [] [] (fun b hb ↦ nomatch hb) lexes_nil
    rwa [List.append_nil, List.append_nil] at hbefore
  constructor
  · intro hreads
    exact (covers_of_generated h).2 (hreads.unmarked_eq hlexes)
  · intro hlegible
    have hread := (readsBack_of_legible h hlegible).yields (t := []) (fun b hb ↦ nomatch hb) (fun b hb ↦ nomatch hb)
    rw [List.append_nil] at hread
    exact ⟨_, hlexes, hread⟩

/-- A product with a negative factor reads back. -/
theorem genExpr_reads_iff_small :
    Sql.Reads (fun _ ↦ false) (lit "(price * -1.5)") (.binary .mul (.column none (lit "price")) (.unary .neg (.real 0x3FF8000000000000))) := by
  have hgenerated : (Expr.binary .mul (.column { column := lit "price" }) (.literal (.float 0xBFF8000000000000)) []).Generated :=
    .binary rfl (.column (by decide)) (.literal _)
  have hreads := (genExpr_reads_iff (fun _ ↦ false) [] hgenerated).2 (by decide +kernel)
  have htext : genExpr [] (.binary .mul (.column { column := lit "price" }) (.literal (.float 0xBFF8000000000000)) []) =
      lit "(price * -1.5)" := by decide +kernel
  rw [htext] at hreads
  exact hreads

/-- The literal 2.0 is printed as an integer. -/
theorem genExpr_prints_integer : stod (lit "2.0") = .ok 0x4000000000000000 ∧
    (Expr.literal (.float 0x4000000000000000)).Generated ∧
    genExpr [] (.literal (.float 0x4000000000000000)) = lit "2" ∧
    ¬Sql.Reads (fun _ ↦ false) (lit "2") (Expr.literal (.float 0x4000000000000000)).denoted := by
  refine ⟨by decide +kernel, .literal _, by decide +kernel, fun hreads ↦ ?_⟩
  have hlexes : Lexes (fun _ ↦ false) (lit "2") [.integer 2] := lexes_nil.integer (fun b hb ↦ nomatch hb) 2
  have heq : [SqlToken.integer 2] = [.real 0x4000000000000000] := hreads.unmarked_eq hlexes
  cases heq

end SkibidiQL
