import SkibidiQL.Base.ExceptRules
import SkibidiQL.Base.ListRules
import SkibidiQL.Base.Utf8
import SkibidiQL.Syntax.LexerRules

/-!
# Quoted text

The context tool writes a text into a statement with `skql_string`, which doubles the quotes and nothing
else, while the lexer also reads escape sequences that start with a backslash. What is read back is what
was written exactly when no backslash of the text is read as an escape.
-/

namespace SkibidiQL

open Bytes Lexer

/-! ### The writer -/

/-- `value.replace("'", "''")`. -/
def replaceQuotes (value : List Char) : List Char :=
  value.flatMap fun c ↦ if c = '\'' then ['\'', '\''] else [c]

/-- `skql_string`. -/
def skqlString (value : List Char) : List Char :=
  '\'' :: (replaceQuotes value ++ ['\''])

/-- The characters that the lexer reads as an escape sequence behind a backslash. -/
def escapeChars : List Char :=
  ['n', 't', 'r', '\\', '\'']

/-! ### Quotes and backslashes in UTF-8 -/

variable {c : Char} {value : List Char} {text v rest after : Bytes}

/-- `replaceQuotes` on bytes. -/
def doubleQuotes (text : Bytes) : Bytes :=
  text.flatMap fun b ↦ if b = 39 then [39, 39] else [b]

theorem doubleQuotes_quote : doubleQuotes (39 :: text) = 39 :: 39 :: doubleQuotes text := rfl

theorem doubleQuotes_cons {b : UInt8} (hb : b ≠ 39) :
    doubleQuotes (b :: text) = b :: doubleQuotes text := by
  rw [doubleQuotes, List.flatMap_cons, if_neg hb]
  rfl

/-- A text without quotes is left. -/
theorem doubleQuotes_append_of_notMem (hv : 39 ∉ v) :
    doubleQuotes (v ++ text) = v ++ doubleQuotes text := by
  induction v with
  | nil => rfl
  | cons b v ih =>
    rw [List.cons_append, doubleQuotes_cons fun h ↦ hv (h ▸ List.mem_cons_self),
      ih fun h ↦ hv (List.mem_cons_of_mem _ h), List.cons_append]

/-- Quotes are doubled on bytes as on characters. -/
theorem encodeUtf8_replaceQuotes :
    encodeUtf8 (replaceQuotes value) = doubleQuotes (encodeUtf8 value) := by
  induction value with
  | nil => rfl
  | cons c value ih =>
    rw [replaceQuotes, List.flatMap_cons, ← replaceQuotes, encodeUtf8_append, ih, encodeUtf8_cons]
    split
    · next h =>
      subst h
      rfl
    · next h =>
      have hquote : (39 : UInt8) ∉ String.utf8EncodeChar c :=
        fun hmem ↦ h ((mem_utf8EncodeChar_iff (a := '\'') (by decide)).1 hmem)
      rw [doubleQuotes_append_of_notMem hquote, encodeUtf8_cons, List.append_assoc]
      rfl

theorem encodeUtf8_skqlString :
    encodeUtf8 (skqlString value) = 39 :: (doubleQuotes (encodeUtf8 value) ++ [39]) := by
  rw [skqlString, encodeUtf8_cons, encodeUtf8_append, encodeUtf8_replaceQuotes]
  rfl

/-- A backslash of the text stands for itself: the next byte makes no escape sequence. -/
def IsPlain (b : UInt8) : Prop :=
  escaped b = [92, b]

/-- A byte is plain when the lexer makes nothing of it behind a backslash. -/
theorem isPlain_iff {b : UInt8} : IsPlain b ↔ b ∉ ([110, 116, 114, 92, 39] : Bytes) := by
  unfold IsPlain escaped
  constructor
  · intro h hmem
    simp only [List.mem_cons, List.not_mem_nil, or_false] at hmem
    obtain rfl | rfl | rfl | rfl | rfl := hmem <;> exact absurd h (by decide)
  · intro h
    simp only [List.mem_cons, List.not_mem_nil, or_false, not_or] at h
    rw [if_neg h.1, if_neg h.2.1, if_neg h.2.2.1, if_neg h.2.2.2.1, if_neg h.2.2.2.2]

/-- The first byte of the encoding is plain when the character is no escape character. -/
theorem isPlain_head_iff :
    (∃ b, (String.utf8EncodeChar c ++ text).head? = some b ∧ IsPlain b) ↔ c ∉ escapeChars := by
  obtain ⟨hc, heq⟩ | ⟨hc, hne, hall⟩ := utf8EncodeChar_cases c
  · have hmem {a : Char} (ha : a.toNat < 128) : UInt8.ofNat c.toNat = UInt8.ofNat a.toNat ↔ c = a := by
      rw [← mem_utf8EncodeChar_iff ha, heq, List.mem_singleton, eq_comm]
    have hiff : UInt8.ofNat c.toNat ∈ ([110, 116, 114, 92, 39] : Bytes) ↔ c ∈ escapeChars := by
      simp only [escapeChars, List.mem_cons, List.not_mem_nil, or_false]
      rw [← hmem (a := 'n') (by decide), ← hmem (a := 't') (by decide), ← hmem (a := 'r') (by decide),
        ← hmem (a := '\\') (by decide), ← hmem (a := '\'') (by decide)]
      rfl
    rw [heq, ← hiff, ← isPlain_iff]
    constructor
    · rintro ⟨b, ⟨⟩, hplain⟩
      exact hplain
    · exact fun h ↦ ⟨_, rfl, h⟩
  · obtain ⟨b, bytes, heq⟩ := List.exists_cons_of_ne_nil hne
    have hb : 128 ≤ b := hall b (heq ▸ List.mem_cons_self)
    refine iff_of_true ⟨b, by rw [heq]; rfl, isPlain_iff.2 fun hmem ↦ ?_⟩ fun hmem ↦ ?_
    · simp only [List.mem_cons, List.not_mem_nil, or_false] at hmem
      obtain rfl | rfl | rfl | rfl | rfl := hmem <;> exact absurd hb (by decide)
    · simp only [escapeChars, List.mem_cons, List.not_mem_nil, or_false] at hmem
      obtain rfl | rfl | rfl | rfl | rfl := hmem <;> exact absurd hc (by decide)

/-- Backslashes of the text and backslashes of its bytes. -/
theorem followedBy_encodeUtf8 :
    (encodeUtf8 value).FollowedBy 92 IsPlain ↔ value.FollowedBy '\\' (· ∉ escapeChars) := by
  induction value with
  | nil => exact iff_of_true List.followedBy_nil List.followedBy_nil
  | cons c value ih =>
    have hslash : (92 : UInt8) ∈ String.utf8EncodeChar c ↔ c = '\\' :=
      mem_utf8EncodeChar_iff (a := '\\') (by decide)
    rw [encodeUtf8_cons, List.followedBy_cons, ← ih]
    by_cases hc : c = '\\'
    · subst hc
      have hhead : (∃ b, (encodeUtf8 value).head? = some b ∧ IsPlain b) ↔
          ∃ c, value.head? = some c ∧ c ∉ escapeChars := by
        cases value with
        | nil => exact iff_of_false (fun ⟨_, h, _⟩ ↦ nomatch h) fun ⟨_, h, _⟩ ↦ nomatch h
        | cons c value =>
          rw [encodeUtf8_cons, isPlain_head_iff]
          exact ⟨fun h ↦ ⟨c, rfl, h⟩, fun ⟨_, hc, h⟩ ↦ Option.some.inj hc ▸ h⟩
      exact List.followedBy_cons.trans
        (and_congr_left fun _ ↦ ⟨fun h _ ↦ hhead.1 (h rfl), fun h _ ↦ hhead.2 (h rfl)⟩)
    · rw [List.followedBy_append fun hmem ↦ hc (hslash.1 hmem)]
      exact (and_iff_right fun h ↦ absurd h hc).symm

/-! ### The reader on written text -/

/-- A text without escape sequences is read back. -/
theorem stringBody_doubleQuotes (hplain : text.FollowedBy 92 IsPlain) (hafter : after.head? ≠ some 39) :
    stringBody (doubleQuotes text ++ 39 :: after) = some (text, after) := by
  induction hlen : text.length using Nat.strong_induction_on generalizing text with
  | _ n ih =>
    subst hlen
    match text with
    | [] => exact stringBody_quote hafter
    | c :: text =>
      have htail := (List.followedBy_cons.1 hplain).2
      by_cases hquote : c = 39
      · subst hquote
        rw [doubleQuotes_quote, List.cons_append, List.cons_append, stringBody_quote_quote,
          ih _ (Nat.lt_succ_self _) htail rfl]
        rfl
      rw [doubleQuotes_cons hquote, List.cons_append]
      by_cases hslash : c = 92
      · obtain ⟨b, hb, hescape⟩ := (List.followedBy_cons.1 hplain).1 hslash
        obtain ⟨text, rfl⟩ := List.head?_eq_some_iff.1 hb
        have hne : b ≠ 39 := fun h ↦ isPlain_iff.1 hescape (by rw [h]; decide)
        rw [doubleQuotes_cons hne, List.cons_append, hslash, stringBody_backslash, hescape,
          ih _ (Nat.lt_succ_of_lt (Nat.lt_succ_self _)) (List.followedBy_cons.1 htail).2 rfl]
        rfl
      · rw [stringBody_plain hquote hslash, ih _ (Nat.lt_succ_self _) htail rfl]
        rfl

/-- Every value that is read from the source with `rest` behind it has at most `k` bytes. -/
def ReadsAtMost (rest source : Bytes) (k : Nat) : Prop :=
  ∀ v, stringBody source = some (v, rest) → v.length ≤ k

namespace ReadsAtMost

variable {k : Nat} {source : Bytes} {b : UInt8}

/-- Two quotes are read as one. -/
theorem quote_quote (h : ReadsAtMost rest source k) : ReadsAtMost rest (39 :: 39 :: source) (k + 1) := by
  intro v hv
  rw [stringBody_quote_quote] at hv
  obtain ⟨read, hread, heq⟩ := Option.map_eq_some_iff.1 hv
  cases heq
  exact Nat.succ_le_succ (h _ hread)

/-- One quote ends the text. -/
theorem quote (hsource : source.head? ≠ some 39) : ReadsAtMost rest (39 :: source) k := by
  intro v hv
  rw [stringBody_quote hsource] at hv
  cases hv
  exact Nat.zero_le _

/-- An escape is read as the bytes it stands for. -/
theorem backslash (h : ReadsAtMost rest source k) :
    ReadsAtMost rest (92 :: b :: source) ((escaped b).length + k) := by
  intro v hv
  rw [stringBody_backslash] at hv
  obtain ⟨read, hread, heq⟩ := Option.map_eq_some_iff.1 hv
  cases heq
  rw [List.length_append]
  exact Nat.add_le_add_left (h _ hread) _

/-- Every other byte is read as itself. -/
theorem plain (hquote : b ≠ 39) (hslash : b ≠ 92) (h : ReadsAtMost rest source k) :
    ReadsAtMost rest (b :: source) (k + 1) := by
  intro v hv
  rw [stringBody_plain hquote hslash] at hv
  obtain ⟨read, hread, heq⟩ := Option.map_eq_some_iff.1 hv
  cases heq
  exact Nat.succ_le_succ (h _ hread)

theorem mono {l : Nat} (h : ReadsAtMost rest source k) (hkl : k ≤ l) : ReadsAtMost rest source l :=
  fun v hv ↦ (h v hv).trans hkl

end ReadsAtMost

/-- An escape stands for at most two bytes. -/
theorem length_escaped (b : UInt8) : (escaped b).length ≤ 2 := by
  unfold escaped
  repeat' split
  all_goals simp

/-- What is read has no more bytes than what was written, if the literal does not run over its end. The
second half is the reader when it has taken the first of two quotes for a part of an escape sequence. -/
theorem readsAtMost_doubleQuotes (hafter : after.head? ≠ some 39)
    (hover : ∀ v, stringBody after ≠ some (v, rest)) :
    ReadsAtMost rest (doubleQuotes text ++ 39 :: after) text.length ∧
      ReadsAtMost rest (39 :: (doubleQuotes text ++ 39 :: after)) (text.length + 1) := by
  have hend (k : Nat) : ReadsAtMost rest after k := fun v hv ↦ absurd hv (hover v)
  induction hlen : text.length using Nat.strong_induction_on generalizing text with
  | _ n ih =>
    subst hlen
    match text with
    | [] => exact ⟨.quote hafter, (hend 0).quote_quote⟩
    | c :: text =>
      have htail := ih _ (Nat.lt_succ_self text.length) rfl
      by_cases hquote : c = 39
      · subst hquote
        exact ⟨htail.1.quote_quote, htail.2.quote_quote⟩
      · rw [doubleQuotes_cons hquote, List.cons_append]
        refine ⟨?_, .quote fun h ↦ hquote (Option.some.inj h)⟩
        by_cases hslash : c = 92
        · subst hslash
          match text with
          | [] =>
            intro v hv
            rw [doubleQuotes, List.flatMap_nil, List.nil_append, stringBody_backslash] at hv
            obtain ⟨⟨_, _⟩, hread, heq⟩ := Option.map_eq_some_iff.1 hv
            cases heq
            exact absurd hread (hover _)
          | b :: text =>
            have hrest : ReadsAtMost rest (doubleQuotes text ++ 39 :: after) text.length ∧
                ReadsAtMost rest (39 :: (doubleQuotes text ++ 39 :: after)) (text.length + 1) :=
              ih _ (Nat.lt_succ_of_lt (Nat.lt_succ_self _)) rfl
            -- A backslash in front of a quote takes the first of its two bytes, and the second starts anew.
            by_cases hb : b = 39
            · subst hb
              exact hrest.2.backslash.mono (Nat.le_of_eq (Nat.add_comm 1 _))
            · rw [doubleQuotes_cons hb, List.cons_append]
              refine hrest.1.backslash.mono ?_
              rw [List.length_cons, List.length_cons, Nat.add_comm]
              exact Nat.add_le_add_left (length_escaped b) _
        · exact htail.1.plain hquote hslash

/-- A text that is read back has no escape sequence. -/
theorem followedBy_of_stringBody (hafter : after.head? ≠ some 39)
    (hover : ∀ v, stringBody after ≠ some (v, rest))
    (hread : stringBody (doubleQuotes text ++ 39 :: after) = some (text, rest)) :
    text.FollowedBy 92 IsPlain := by
  -- A backslash takes the byte behind it along, so the induction is on the length.
  induction hlen : text.length using Nat.strong_induction_on generalizing text with
  | _ n ih =>
    subst hlen
    match text with
    | [] => exact List.followedBy_nil
    | c :: text =>
      by_cases hquote : c = 39
      · subst hquote
        rw [doubleQuotes_quote, List.cons_append, List.cons_append, stringBody_quote_quote] at hread
        obtain ⟨read, hbody, heq⟩ := Option.map_eq_some_iff.1 hread
        cases heq
        exact List.followedBy_cons.2 ⟨fun h ↦ absurd h (by decide), ih _ (Nat.lt_succ_self _) hbody rfl⟩
      rw [doubleQuotes_cons hquote, List.cons_append] at hread
      by_cases hslash : c = 92
      · subst hslash
        match text with
        | [] =>
          rw [doubleQuotes, List.flatMap_nil, List.nil_append, stringBody_backslash] at hread
          obtain ⟨⟨_, _⟩, hbody, heq⟩ := Option.map_eq_some_iff.1 hread
          cases heq
        | b :: text =>
          by_cases hb : b = 39
          · subst hb
            rw [doubleQuotes_quote, List.cons_append, List.cons_append, stringBody_backslash] at hread
            obtain ⟨read, -, heq⟩ := Option.map_eq_some_iff.1 hread
            exact absurd (congrArg (·.1.head?) heq) (show some (39 : UInt8) ≠ some 92 by decide)
          rw [doubleQuotes_cons hb, List.cons_append, stringBody_backslash] at hread
          obtain ⟨⟨v, _⟩, hbody, heq⟩ := Option.map_eq_some_iff.1 hread
          obtain ⟨hvalue, rfl⟩ := Prod.mk.inj heq
          by_cases hplain : IsPlain b
          · rw [hplain] at hvalue
            cases hvalue
            have hne : b ≠ 92 := fun h ↦ isPlain_iff.1 hplain (by rw [h]; decide)
            exact List.followedBy_cons.2 ⟨fun _ ↦ ⟨b, rfl, hplain⟩, List.followedBy_cons.2
              ⟨fun h ↦ absurd h hne, ih _ (Nat.lt_succ_of_lt (Nat.lt_succ_self _)) hbody rfl⟩⟩
          · rw [isPlain_iff, not_not] at hplain
            simp only [List.mem_cons, List.not_mem_nil, or_false] at hplain
            obtain rfl | rfl | rfl | rfl | rfl := hplain
            · exact absurd (congrArg List.head? hvalue) (show some (10 : UInt8) ≠ some 92 by decide)
            · exact absurd (congrArg List.head? hvalue) (show some (9 : UInt8) ≠ some 92 by decide)
            · exact absurd (congrArg List.head? hvalue) (show some (13 : UInt8) ≠ some 92 by decide)
            · -- two backslashes are read as one, and the rest cannot make up for it
              cases hvalue
              exact absurd ((readsAtMost_doubleQuotes hafter hover).1 _ hbody) (Nat.not_succ_le_self _)
            · exact absurd rfl hb
      · rw [stringBody_plain hquote hslash] at hread
        obtain ⟨read, hbody, heq⟩ := Option.map_eq_some_iff.1 hread
        cases heq
        exact List.followedBy_cons.2 ⟨fun h ↦ absurd h hslash, ih _ (Nat.lt_succ_self _) hbody rfl⟩

/-! ### Whole statements -/

/-- The source that the tool writes for a text is one string literal with that text as its value. -/
def IsOneLiteral (value : List Char) : Prop :=
  ∃ tokens, tokenize (encodeUtf8 (skqlString value)) = .ok tokens ∧
    tokens.map (fun token ↦ (token.type, token.value)) =
      [(.stringLit, encodeUtf8 value), (.eofToken, [])]

/-- The lexer reads the literal that the tool writes for a text and leaves what stands behind it in the
statement: a line break, which the tool writes behind every literal, and any further text. -/
def EndsInPlace (value : List Char) (after : Bytes) : Prop :=
  ∀ line col, ∃ token next,
    readString ⟨encodeUtf8 (skqlString value) ++ 10 :: after, line, col⟩ = .ok (token, next) ∧
      token.type = .stringLit ∧ token.value = encodeUtf8 value ∧ next.rest = 10 :: after

/-- The lexer reads a quoted text as the body of a string. -/
theorem readString_skqlString (value : List Char) (after : Bytes) (line col : Nat) :
    readString ⟨encodeUtf8 (skqlString value) ++ after, line, col⟩ =
      match stringBody (doubleQuotes (encodeUtf8 value) ++ 39 :: after) with
      | some (v, rest) => .ok (⟨.stringLit, v, line, col⟩,
          moveTo rest ⟨encodeUtf8 (skqlString value) ++ after, line, col⟩)
      | none => .error (lexerError (lit "Unterminated string literal") line col) := by
  have hbody : (encodeUtf8 (skqlString value) ++ after).drop 1 =
      doubleQuotes (encodeUtf8 value) ++ 39 :: after := by
    rw [encodeUtf8_skqlString, List.cons_append, List.append_assoc]
    rfl
  rw [readString, hbody]
  rfl

/-- The text ends in its place when no backslash stands before a byte that escapes. -/
theorem endsInPlace_iff :
    EndsInPlace value after ↔ value.FollowedBy '\\' (· ∉ escapeChars) := by
  rw [← followedBy_encodeUtf8]
  have hnext : (10 :: after).head? ≠ some 39 := fun h ↦ absurd (Option.some.inj h) (by decide)
  constructor
  · intro h
    obtain ⟨token, next, hread, -, hvalue, hrest⟩ := h 1 1
    rw [readString_skqlString] at hread
    split at hread
    · next v rest hbody =>
      have hsuffix := (stringBody_suffix hbody).1
      cases hread
      rw [rest_moveTo] at hrest
      · subst hrest
        rw [← show v = encodeUtf8 value from hvalue] at hbody ⊢
        refine followedBy_of_stringBody hnext (fun v h ↦ ?_) hbody
        exact absurd (stringBody_suffix h).2 (Nat.lt_irrefl _)
      · rw [encodeUtf8_skqlString, List.cons_append, List.append_assoc]
        exact hsuffix.trans (List.suffix_cons _ _)
    · exact nomatch hread
  · intro hplain line col
    rw [readString_skqlString, stringBody_doubleQuotes hplain hnext]
    exact ⟨_, _, rfl, rfl, rfl, rest_moveTo (List.suffix_append _ _)⟩

/-- The text is one literal when no backslash stands before a byte that escapes. -/
theorem isOneLiteral_iff : IsOneLiteral value ↔ value.FollowedBy '\\' (· ∉ escapeChars) := by
  rw [← followedBy_encodeUtf8]
  have hnext : ([] : Bytes).head? ≠ some 39 := fun h ↦ nomatch h
  set lexer : Lexer := ⟨encodeUtf8 (skqlString value), 1, 1⟩ with hlexer
  have hstart : lexer.rest = 39 :: (doubleQuotes (encodeUtf8 value) ++ [39]) := encodeUtf8_skqlString
  have htokens := tokensFrom_quote (encodeUtf8 (skqlString value)).length hstart
  have hread := readString_skqlString value [] 1 1
  rw [List.append_nil] at hread
  constructor
  · rintro ⟨tokens, hok, hmap⟩
    rw [tokenize, htokens] at hok
    obtain ⟨⟨token, next⟩, hstring, hok⟩ := Except.bind_eq_ok.1 hok
    obtain ⟨later, -, hlater⟩ := Except.bind_eq_ok.1 hok
    cases hlater
    have hvalue : token.value = encodeUtf8 value := congrArg Prod.snd (List.cons.inj hmap).1
    rw [hread] at hstring
    split at hstring
    · next v rest hbody =>
      cases hstring
      rw [← show v = encodeUtf8 value from hvalue] at hbody ⊢
      exact followedBy_of_stringBody hnext (fun v h ↦ nomatch h) hbody
    · exact nomatch hstring
  · intro hplain
    have hpos : 0 < (encodeUtf8 (skqlString value)).length := by
      rw [encodeUtf8_skqlString]
      exact Nat.succ_pos _
    obtain ⟨fuel, hfuel⟩ := Nat.exists_eq_succ_of_ne_zero (Nat.ne_of_gt hpos)
    rw [stringBody_doubleQuotes hplain hnext] at hread
    have hrest : (moveTo [] lexer).rest = [] := rest_moveTo List.nil_suffix
    have hend := tokensFrom_nil fuel hrest
    rw [IsOneLiteral, tokenize, htokens, hread, hfuel]
    refine ⟨_, Except.bind_eq_ok.2 ⟨_, rfl, Except.bind_eq_ok.2 ⟨_, hend, rfl⟩⟩, rfl⟩

/-- The tool's literal is read back, on its own and inside a statement, exactly when every backslash of the
text has a character behind it that makes no escape sequence. -/
theorem skqlString_reads_back_iff (value : List Char) (after : Bytes) :
    (IsOneLiteral value ∧ EndsInPlace value after) ↔ value.FollowedBy '\\' (· ∉ escapeChars) := by
  rw [isOneLiteral_iff, endsInPlace_iff, and_self_iff]

/-- A text that is a single backslash: it takes the closing quote for an escape sequence, and the literal
has no end. -/
theorem skqlString_backslash_unterminated :
    tokenize (encodeUtf8 (skqlString ['\\'])) =
        .error (lexerError (lit "Unterminated string literal") 1 1) ∧
      ¬∀ value, IsOneLiteral value := by
  have herror : tokenize (encodeUtf8 (skqlString ['\\'])) =
      .error (lexerError (lit "Unterminated string literal") 1 1) := by decide +kernel
  refine ⟨herror, fun h ↦ ?_⟩
  obtain ⟨tokens, hok, -⟩ := h ['\\']
  exact nomatch herror.symm.trans hok

end SkibidiQL
