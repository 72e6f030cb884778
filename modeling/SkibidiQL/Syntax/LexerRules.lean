import SkibidiQL.Syntax.Lexer
import Mathlib.Data.List.Infix

/-!
# Rules for the lexer

What each step leaves of the source, and that the token list does not depend on the fuel once that
exceeds the length of the source.
-/

namespace SkibidiQL

open Bytes

/-! ### Bodies of string literals -/

namespace Lexer

variable {text rest value : Bytes} {c esc : UInt8}

theorem stringBody_quote_quote :
    stringBody (39 :: 39 :: text) = (stringBody text).map fun read ↦ (39 :: read.1, read.2) := by
  rw [stringBody.eq_def]
  exact if_pos rfl

/-- One quote ends the string. -/
theorem stringBody_quote (htext : text.head? ≠ some 39) : stringBody (39 :: text) = some ([], text) := by
  rw [stringBody.eq_def]
  refine (if_pos rfl).trans ?_
  split
  · exact absurd rfl htext
  · rfl

/-- A backslash escapes the byte behind it. -/
theorem stringBody_backslash :
    stringBody (92 :: esc :: text) =
      (stringBody text).map fun read ↦ (escaped esc ++ read.1, read.2) := by
  rw [stringBody.eq_def]
  exact (if_neg (by decide)).trans (if_pos rfl)

theorem stringBody_plain (hquote : c ≠ 39) (hslash : c ≠ 92) :
    stringBody (c :: text) = (stringBody text).map fun read ↦ (c :: read.1, read.2) := by
  rw [stringBody.eq_def]
  exact (if_neg hquote).trans (if_neg hslash)

/-- What is left behind a literal is a proper suffix of the source. -/
theorem stringBody_suffix (hread : stringBody text = some (value, rest)) :
    rest <:+ text ∧ rest.length < text.length := by
  induction hlen : text.length using Nat.strong_induction_on generalizing text value with
  | _ n ih =>
    subst hlen
    have through (before : Bytes) {source v : Bytes} (heq : text = before ++ source)
        (hpos : 0 < before.length) (h : stringBody source = some (v, rest)) :
        rest <:+ text ∧ rest.length < text.length := by
      have hlt : source.length < text.length := by
        rw [heq, List.length_append]
        omega
      have hrec := ih _ hlt h rfl
      exact ⟨hrec.1.trans ⟨before, heq.symm⟩, hrec.2.trans hlt⟩
    match text with
    | [] => exact nomatch hread
    | c :: text =>
      by_cases hquote : c = 39
      · subst hquote
        by_cases hnext : text.head? = some 39
        · obtain ⟨text, rfl⟩ := List.head?_eq_some_iff.1 hnext
          rw [stringBody_quote_quote] at hread
          obtain ⟨read, hbody, heq⟩ := Option.map_eq_some_iff.1 hread
          cases heq
          exact through [39, 39] rfl (by simp) hbody
        · rw [stringBody_quote hnext] at hread
          cases hread
          exact ⟨List.suffix_cons _ _, Nat.lt_succ_self _⟩
      · by_cases hslash : c = 92
        · subst hslash
          match text with
          | [] => exact nomatch hread
          | esc :: text =>
            rw [stringBody_backslash] at hread
            obtain ⟨read, hbody, heq⟩ := Option.map_eq_some_iff.1 hread
            cases heq
            exact through [92, esc] rfl (by simp) hbody
        · rw [stringBody_plain hquote hslash] at hread
          obtain ⟨read, hbody, heq⟩ := Option.map_eq_some_iff.1 hread
          cases heq
          exact through [c] rfl (by simp) hbody

/-! ### Moving over the source -/

variable {lexer next : Lexer}

@[simp] theorem rest_advance : lexer.advance.rest = lexer.rest.drop 1 := by
  unfold advance
  split
  · next h => rw [h]; rfl
  · next b rest h => split <;> rw [h] <;> rfl

@[simp] theorem rest_advanceBy (n : Nat) : (advanceBy n lexer).rest = lexer.rest.drop n := by
  induction n generalizing lexer with
  | zero => rfl
  | succ n ih => rw [advanceBy, ih, rest_advance, List.drop_drop, Nat.add_comm]

theorem rest_moveTo (hrest : rest <:+ lexer.rest) : (lexer.moveTo rest).rest = rest := by
  rw [moveTo, rest_advanceBy, ← List.suffix_iff_eq_drop.1 hrest]

theorem moveTo_rest : lexer.moveTo lexer.rest = lexer := by
  rw [moveTo, Nat.sub_self, advanceBy]

theorem rest_skipWhitespace : lexer.skipWhitespace.rest = lexer.rest.dropWhile isSpace :=
  rest_moveTo (List.dropWhile_suffix _)

/-- In front of a character that is no white space, nothing is skipped. -/
theorem skipWhitespace_of_not_space (hrest : lexer.rest = c :: rest) (hspace : isSpace c = false) :
    lexer.skipWhitespace = lexer := by
  have hdrop : lexer.rest.dropWhile isSpace = lexer.rest := by
    rw [hrest, List.dropWhile_cons_of_neg (by rw [hspace]; exact Bool.false_ne_true)]
  rw [skipWhitespace, hdrop, moveTo_rest]

/-! ### Every round shortens the source -/

/-- Whatever the reader reads, it leaves less of the source. -/
def Shortens {α : Type} (lexer : Lexer) (reader : Except LexerError (α × Lexer)) : Prop :=
  ∀ read, reader = .ok read → read.2.rest.length < lexer.rest.length

theorem Shortens.error {α : Type} (e : LexerError) :
    lexer.Shortens (.error e : Except LexerError (α × Lexer)) :=
  fun _ h ↦ nomatch h

/-- A token that was taken shortens the text. -/
theorem Shortens.ok {α : Type} {read : α × Lexer} (h : read.2.rest.length < lexer.rest.length) :
    lexer.Shortens (.ok read) := by
  intro _ heq
  cases heq
  exact h

/-- A choice shortens when both branches do. -/
theorem Shortens.ite {α : Type} {p : Prop} [Decidable p]
    {yes no : Except LexerError (α × Lexer)} (hyes : p → lexer.Shortens yes)
    (hno : lexer.Shortens no) : lexer.Shortens (if p then yes else no) := by
  split
  · next h => exact hyes h
  · exact hno

/-- What is made of the token does not matter. -/
theorem Shortens.map {α β : Type} {reader : Except LexerError (α × Lexer)} {f : α × Lexer → β × Lexer}
    (h : lexer.Shortens reader) (hf : ∀ read, (f read).2 = read.2) :
    lexer.Shortens (reader.map f) := by
  cases reader with
  | error e => exact .error e
  | ok read =>
    refine .ok ?_
    rw [hf]
    exact h read rfl

/-- Behind a block comment stands a shorter rest of the text. -/
theorem afterBlockComment_suffix (hread : afterBlockComment text = some rest) :
    rest <:+ text ∧ rest.length < text.length := by
  induction text with
  | nil => exact nomatch hread
  | cons b text ih =>
    rw [afterBlockComment] at hread
    split at hread
    · cases hread
      refine ⟨(List.drop_suffix _ _).trans (List.suffix_cons _ _), ?_⟩
      exact Nat.lt_succ_of_le (List.drop_suffix _ _).length_le
    · have hrec := ih hread
      exact ⟨hrec.1.trans (List.suffix_cons _ _), hrec.2.trans (Nat.lt_succ_self _)⟩

/-- Skipping a block comment shortens the text. -/
theorem skipBlockComment_shortens (hskip : lexer.skipBlockComment = .ok next) :
    next.rest.length < lexer.rest.length := by
  unfold skipBlockComment at hskip
  split at hskip
  · next rest hrest =>
    cases hskip
    have hsuffix := afterBlockComment_suffix hrest
    rw [rest_moveTo (hsuffix.1.trans (List.drop_suffix _ _))]
    refine hsuffix.2.trans_le ?_
    rw [List.length_drop]
    exact Nat.sub_le _ _
  · exact nomatch hskip

/-- Reading a string shortens the text. -/
theorem readString_shortens (hrest : lexer.rest = c :: text) : lexer.Shortens lexer.readString := by
  unfold readString
  split
  · next value rest hbody =>
    rw [hrest, List.drop_one, List.tail_cons] at hbody
    have hsuffix := stringBody_suffix hbody
    refine .ok ?_
    rw [rest_moveTo (hrest ▸ hsuffix.1.trans (List.suffix_cons _ _)), hrest]
    exact hsuffix.2.trans (Nat.lt_succ_self _)
  · exact .error _

/-- Reading a number does. -/
theorem readNumber_shortens (hrest : lexer.rest = c :: text) (hdigit : isDigit c) :
    lexer.Shortens lexer.readNumber := by
  unfold readNumber
  simp only
  split
  · exact .error _
  · refine .ok ?_
    rw [rest_moveTo (List.drop_suffix _ _), List.length_drop, hrest,
      List.takeWhile_cons_of_pos hdigit]
    simp only [List.cons_append, List.length_cons]
    omega

/-- A word has its first byte. -/
theorem wordText_cons (hstart : isWordStart c) : wordText (c :: text) = c :: wordText text := by
  have hcontinue : isWordContinue c = true := by
    unfold isWordStart at hstart
    unfold isWordContinue isAlnum
    grind
  have hhyphen : c ≠ 45 := by
    rintro rfl
    exact absurd hstart (by decide)
  rw [wordText, hcontinue, if_neg (by decide), if_neg fun h ↦ hhyphen h.1]

/-- Reading a word does. -/
theorem readWord_shortens (hrest : lexer.rest = c :: text) (hstart : isWordStart c) :
    lexer.readWord.2.rest.length < lexer.rest.length := by
  have hhyphen : (c != 45) = true := by
    rw [bne_iff_ne]
    rintro rfl
    exact absurd hstart (by decide)
  have hdrop (n : Nat) :
      (lexer.moveTo (lexer.rest.drop (n + 1))).rest.length < lexer.rest.length := by
    rw [rest_moveTo (List.drop_suffix _ _), List.length_drop, hrest, List.length_cons]
    omega
  unfold readWord
  simp only [hrest, wordText_cons hstart] at hdrop ⊢
  split
  · exact hdrop _
  · split
    · exact hdrop _
    · rw [List.takeWhile_cons_of_pos (p := fun b ↦ b != 45) hhyphen]
      exact hdrop _

/-- Reading an operator of given text does. -/
theorem operator_shortens {type : TokenType} {op : String} (hrest : lexer.rest ≠ [])
    (hop : lit op ≠ []) : lexer.Shortens (lexer.operator type op) := by
  have hlexer := List.length_pos_of_ne_nil hrest
  have hlit := List.length_pos_of_ne_nil hop
  refine .ok ?_
  rw [rest_advanceBy, List.length_drop]
  omega

/-- Reading any operator does. -/
theorem readOperator_shortens (hrest : lexer.rest ≠ []) :
    lexer.Shortens (lexer.readOperator c) := by
  unfold readOperator
  repeat' refine .ite (fun _ ↦ ?_) ?_
  all_goals first
    | exact .error _
    | exact operator_shortens hrest (by simp [lit])

/-- A round of `tokenize` leaves less of the source. -/
theorem readToken_shortens (hrest : lexer.rest = c :: text) :
    lexer.Shortens (lexer.readToken c) := by
  have hne : lexer.rest ≠ [] := hrest ▸ List.cons_ne_nil _ _
  unfold readToken
  refine .ite (fun h ↦ .ok ?_) (.ite (fun _ ↦ ?_) (.ite (fun _ ↦ ?_) (.ite (fun h ↦ ?_)
    (.ite (fun h ↦ .ok ?_) ?_))))
  · rw [skipLineComment, rest_moveTo (List.dropWhile_suffix _), hrest,
      List.dropWhile_cons_of_pos (by rw [h.1]; decide)]
    exact Nat.lt_succ_of_le (List.dropWhile_suffix _).length_le
  · cases hskip : lexer.skipBlockComment with
    | error e => exact .error e
    | ok next => exact .ok (skipBlockComment_shortens hskip)
  · exact (readString_shortens hrest).map fun _ ↦ rfl
  · exact (readNumber_shortens hrest h).map fun _ ↦ rfl
  · exact readWord_shortens hrest h
  · exact (readOperator_shortens hne).map fun _ ↦ rfl

/-! ### One round -/

/-- At the end stands the token of the end. -/
theorem tokensFrom_nil (fuel : Nat) (hrest : lexer.rest = []) :
    tokensFrom (fuel + 1) lexer = .ok [lexer.token .eofToken []] := by
  have hskip : lexer.skipWhitespace = lexer := by
    rw [skipWhitespace, hrest, List.dropWhile_nil, ← hrest, moveTo_rest]
  rw [tokensFrom, hskip]
  split
  · rfl
  · next h => exact absurd (hrest.symm.trans h) (List.cons_ne_nil _ _).symm

/-- At a quote a string is read. -/
theorem tokensFrom_quote (fuel : Nat) (hrest : lexer.rest = 39 :: text) :
    tokensFrom (fuel + 1) lexer = (do
      let read ← lexer.readString
      let tokens ← tokensFrom fuel read.2
      return read.1 :: tokens) := by
  have hskip : lexer.skipWhitespace = lexer := skipWhitespace_of_not_space hrest rfl
  rw [tokensFrom, hskip]
  split
  · next h => exact absurd (hrest.symm.trans h) (List.cons_ne_nil _ _)
  · next c text' h =>
    obtain ⟨rfl, -⟩ := List.cons.inj (hrest.symm.trans h)
    have hread : lexer.readToken 39 = lexer.readString.map fun read ↦ (some read.1, read.2) := by
      rw [readToken, if_neg fun h ↦ absurd h.1 (by decide), if_neg fun h ↦ absurd h.1 (by decide),
        if_pos rfl]
    rw [hread]
    cases lexer.readString <;> rfl

/-! ### Fuel -/

/-- The token list does not depend on the fuel. -/
theorem tokensFrom_fuel {fuel fuel' : Nat} (hfuel : lexer.rest.length < fuel)
    (hfuel' : lexer.rest.length < fuel') : tokensFrom fuel lexer = tokensFrom fuel' lexer := by
  induction fuel generalizing lexer fuel' with
  | zero => exact absurd hfuel (Nat.not_lt_zero _)
  | succ fuel ih =>
    obtain ⟨fuel', rfl⟩ := Nat.exists_eq_succ_of_ne_zero (Nat.ne_of_gt (Nat.zero_lt_of_lt hfuel'))
    have hskip : lexer.skipWhitespace.rest.length ≤ lexer.rest.length := by
      rw [rest_skipWhitespace]
      exact (List.dropWhile_suffix _).length_le
    rw [tokensFrom, tokensFrom]
    split
    · rfl
    · next c text hrest =>
      cases hread : lexer.skipWhitespace.readToken c with
      | error e => rfl
      | ok read =>
        have hshort := readToken_shortens hrest read hread
        simp only [bind, Except.bind, ih (by omega) (show read.2.rest.length < fuel' by omega)]

end Lexer

end SkibidiQL
