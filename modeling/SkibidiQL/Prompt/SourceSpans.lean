import Mathlib.Data.List.DropRight
import SkibidiQL.Prompt.Extraction

/-!
# The source ranges of extracted values

A value is recorded with the range of the text that it was taken from. The range ends at the end of the sentence.
When the text ends first, the length of the range is that of the trimmed snippet, though the range starts in front
of the white space: then it is the range of the snippet only if no white space follows the marker. The markers of
a constraint are put in front of the snippet, and never belong to the range.
-/

namespace SkibidiQL

open Bytes

variable {text marker value rest : Bytes} {extracted : ExtractedValue} {b : UInt8}

/-! ### Trimming -/

theorem trimText_eq (value : Bytes) : trimText value = (value.dropWhile isSpace).rdropWhile isSpace :=
  rfl

/-- White space in front does not matter. -/
theorem trimText_cons (h : isSpace b) (value : Bytes) : trimText (b :: value) = trimText value := by
  rw [trimText_eq, List.dropWhile_cons_of_pos h, trimText_eq]

theorem length_trimText_le (value : Bytes) : (trimText value).length ≤ value.length :=
  (List.rdropWhile_prefix isSpace _).length_le.trans (List.length_dropWhile_le isSpace value)

/-- A text that starts with no white space is its trimmed text with the white space behind. -/
theorem trimText_isPrefix (h : value.head?.all fun b ↦ !isSpace b) : trimText value <+: value := by
  have hfront : value.dropWhile isSpace = value := by
    cases value with
    | nil => rfl
    | cons b value => exact List.dropWhile_cons_of_neg (by simpa using h)
  rw [trimText_eq, hfront]
  exact List.rdropWhile_prefix _ _

/-- Trimming twice is trimming once. -/
theorem trimText_trimText (value : Bytes) : trimText (trimText value) = trimText value := by
  have hfront : ((value.dropWhile isSpace).rdropWhile isSpace).dropWhile isSpace =
      (value.dropWhile isSpace).rdropWhile isSpace := by
    have hprefix : (value.dropWhile isSpace).rdropWhile isSpace <+: value.dropWhile isSpace :=
      List.rdropWhile_prefix _ _
    have hhead := List.head?_dropWhile_not isSpace value
    obtain ⟨back, hback⟩ := hprefix
    rcases hmiddle : (value.dropWhile isSpace).rdropWhile isSpace with - | ⟨b, middle⟩
    · rfl
    · rw [← hback, hmiddle] at hhead
      exact List.dropWhile_cons_of_neg (by simpa using hhead)
  rw [trimText_eq, trimText_eq, hfront, List.rdropWhile_idempotent]

/-- As many bytes as the trimmed text has are that text exactly when no white space is in front of it. -/
theorem trimText_take_iff (hne : trimText value ≠ []) :
    trimText (value.take (trimText value).length) = trimText value ↔ value.head?.all fun b ↦ !isSpace b := by
  constructor
  · intro h
    cases value with
    | nil => rfl
    | cons b value =>
      by_contra hspace
      have hspace : isSpace b := by simpa using hspace
      rw [trimText_cons hspace] at h hne
      obtain ⟨n, hn⟩ : ∃ n, (trimText value).length = n + 1 :=
        Nat.exists_eq_succ_of_ne_zero fun hzero ↦ hne (List.length_eq_zero_iff.1 hzero)
      rw [hn, List.take_succ_cons, trimText_cons hspace] at h
      -- one byte of the range is white space
      have hlength := length_trimText_le (value.take n)
      rw [h, hn, List.length_take] at hlength
      omega
  · intro h
    rw [List.prefix_iff_eq_take.1 (trimText_isPrefix h) |>.symm, trimText_trimText]

/-! ### Searching -/

/-- A text starts with its prefixes. -/
theorem startsWith_iff {text needle : Bytes} : startsWith text needle ↔ needle <+: text := by
  induction needle generalizing text with
  | nil => cases text <;> exact iff_of_true rfl List.nil_prefix
  | cons n needle ih =>
    cases text with
    | nil => exact iff_of_false nofun fun h ↦ List.cons_ne_nil _ _ (List.prefix_nil.1 h)
    | cons b text => rw [startsWith, Bool.and_eq_true, beq_iff_eq, ih, List.cons_prefix_cons, eq_comm]

/-- Where the needle is found it occurs. -/
theorem prefix_drop_of_find {text needle : Bytes} {pos : Nat} (h : find text needle = some pos) :
    needle <+: text.drop pos := by
  induction text generalizing pos with
  | nil =>
    rw [find] at h
    split at h
    · rename_i hstarts
      obtain rfl := Option.some.inj h
      exact startsWith_iff.1 hstarts
    · cases h
  | cons b text ih =>
    rw [find] at h
    split at h
    · rename_i hstarts
      obtain rfl := Option.some.inj h
      exact startsWith_iff.1 hstarts
    · obtain ⟨pos, hpos, rfl⟩ := Option.map_eq_some_iff.1 h
      exact ih hpos

/-- A position that is found lies in the text. -/
theorem find_le_length {text needle : Bytes} {pos : Nat} (h : find text needle = some pos) :
    pos ≤ text.length := by
  induction text generalizing pos with
  | nil =>
    rw [find] at h
    split at h <;> cases h
    exact Nat.le_refl 0
  | cons b text ih =>
    rw [find] at h
    split at h
    · cases h
      exact Nat.zero_le _
    · obtain ⟨pos, hpos, rfl⟩ := Option.map_eq_some_iff.1 h
      exact Nat.succ_le_succ (ih hpos)

/-- The end of a needle that is found lies in the text. -/
theorem find_add_length_le {text needle : Bytes} {pos : Nat} (h : find text needle = some pos) :
    pos + needle.length ≤ text.length := by
  have hlength := (prefix_drop_of_find h).length_le
  have hpos := find_le_length h
  rw [List.length_drop] at hlength
  omega

/-- The boundary of a value lies in the value. -/
theorem valueBoundary_lt {previous : Option UInt8} {boundary : Nat}
    (h : valueBoundary previous value = some boundary) : boundary < value.length := by
  induction value generalizing previous boundary with
  | nil => cases h
  | cons b value ih =>
    rw [valueBoundary] at h
    split at h
    · cases h
      exact Nat.succ_pos _
    · split at h
      · cases h
        exact Nat.succ_pos _
      · obtain ⟨boundary, hboundary, rfl⟩ := Option.map_eq_some_iff.1 h
        exact Nat.succ_lt_succ (ih hboundary)

/-! ### Ranges -/

/-- The text from one position to another. -/
def sourceText (text : Bytes) (sourceStart sourceEnd : UInt64) : Bytes :=
  (text.drop sourceStart.toNat).take (sourceEnd.toNat - sourceStart.toNat)

/-- The range lies in the text, and is the snippet but for white space around it. -/
structure SpanExact (text : Bytes) (sourceStart sourceEnd : UInt64) (snippet : Bytes) : Prop where
  start_le : sourceStart ≤ sourceEnd
  end_le : sourceEnd.toNat ≤ text.length
  snippet_eq : trimText (sourceText text sourceStart sourceEnd) = snippet

/-- The text behind the first occurrence of the marker. -/
def behindMarker (text marker : Bytes) : Option Bytes :=
  (find (lowerText text) marker).map fun pos ↦ text.drop (pos + marker.length)

/-- A sentence ends behind the marker, or no white space follows it. -/
def EndsOrTight (text marker : Bytes) : Prop :=
  ∀ rest ∈ behindMarker text marker, (valueBoundary none rest).isSome ∨ rest.head?.all fun b ↦ !isSpace b

/-- What is extracted is the value behind the marker, up to the end of the sentence. -/
theorem extractAfterMarker_eq_some (h : extractAfterMarker text marker = some extracted) :
    ∃ start ≤ text.length, behindMarker text marker = some (text.drop start) ∧
      let rest := text.drop start
      let boundary := valueBoundary none rest
      let value := boundary.elim rest fun boundary ↦ rest.take boundary
      cleanAtomValue value ≠ [] ∧ extracted =
        { value := cleanAtomValue value
          originalSnippet := trimText value
          sourceStart := .ofNat start
          sourceEnd := .ofNat (start + boundary.getD (trimText value).length) } := by
  rw [extractAfterMarker] at h
  split at h
  · cases h
  · rename_i pos hfind
    dsimp only at h
    split at h
    · cases h
    · rename_i hvalue
      have hle := find_add_length_le hfind
      rw [lowerText, List.length_map] at hle
      refine ⟨pos + marker.length, hle, ?_, fun hnil ↦ hvalue (List.isEmpty_iff.2 hnil), (Option.some.inj h).symm⟩
      rw [behindMarker, hfind]
      rfl

theorem cleanAtomValue_of_trimText (h : trimText value = []) : cleanAtomValue value = [] := by
  rw [cleanAtomValue, h]
  decide

/-- The range of an extracted value lies in the text; it is the snippet exactly when a sentence ends behind the
marker or no white space follows it. -/
theorem extractAfterMarker_spanExact_iff (hsize : text.length < 2 ^ 64)
    (h : extractAfterMarker text marker = some extracted) :
    extracted.sourceStart ≤ extracted.sourceEnd ∧ extracted.sourceEnd.toNat ≤ text.length ∧
      (SpanExact text extracted.sourceStart extracted.sourceEnd extracted.originalSnippet ↔
        EndsOrTight text marker) := by
  obtain ⟨start, hstart, hrest, hvalue, rfl⟩ := extractAfterMarker_eq_some h
  dsimp only at hvalue ⊢
  have hlength : (text.drop start).length = text.length - start := List.length_drop
  generalize hr : text.drop start = rest at *
  -- the length of the range
  obtain ⟨n, hn, hsnippet⟩ : ∃ n ≤ rest.length,
      (valueBoundary none rest).getD (trimText ((valueBoundary none rest).elim rest (rest.take ·))).length = n ∧
      (trimText (rest.take n) = trimText ((valueBoundary none rest).elim rest (rest.take ·)) ↔
        (valueBoundary none rest).isSome ∨ rest.head?.all fun b ↦ !isSpace b) := by
    cases hboundary : valueBoundary none rest with
    | none =>
      rw [hboundary] at hvalue
      have hne : trimText rest ≠ [] := fun hnil ↦ hvalue (cleanAtomValue_of_trimText hnil)
      refine ⟨_, length_trimText_le rest, rfl, (trimText_take_iff hne).trans ?_⟩
      simp
    | some boundary =>
      exact ⟨boundary, (valueBoundary_lt hboundary).le, rfl, iff_of_true rfl (.inl rfl)⟩
  obtain ⟨hlast, hsnippet⟩ := hsnippet
  rw [hlast]
  have hend : start + n < 2 ^ 64 := by omega
  have hstart64 : (UInt64.ofNat start).toNat = start := UInt64.toNat_ofNat_of_lt' (by exact (by omega : start < 2 ^ 64))
  have hend64 : (UInt64.ofNat (start + n)).toNat = start + n := UInt64.toNat_ofNat_of_lt' hend
  have hle : UInt64.ofNat start ≤ UInt64.ofNat (start + n) := by
    rw [UInt64.le_iff_toNat_le, hstart64, hend64]
    omega
  have hin : (UInt64.ofNat (start + n)).toNat ≤ text.length := by
    rw [hend64]
    omega
  have hsource : sourceText text (.ofNat start) (.ofNat (start + n)) = rest.take n := by
    rw [sourceText, hstart64, hend64, hr, Nat.add_sub_cancel_left]
  refine ⟨hle, hin, ⟨fun hexact rest' hrest' ↦ ?_, fun hcond ↦ ⟨hle, hin, ?_⟩⟩⟩
  · obtain rfl := Option.some.inj (hrest.symm.trans hrest')
    exact hsnippet.1 (hsource ▸ hexact.snippet_eq)
  · rw [hsource]
    exact hsnippet.2 (hcond rest hrest)

/-! ### Bytes that cleaning keeps -/

section Kept

variable {p q : UInt8 → Bool}

/-- Dropping bytes of one kind leaves the count of another. -/
theorem countP_dropWhile (h : ∀ b, q b → p b = false) (value : Bytes) :
    (value.dropWhile p).countP q = value.countP q := by
  have htaken : (value.takeWhile p).countP q = 0 := List.countP_eq_zero.2 fun b hb hq ↦ by
    have hp := List.mem_takeWhile_imp hb
    rw [h b hq] at hp
    cases hp
  calc (value.dropWhile p).countP q = (value.takeWhile p).countP q + (value.dropWhile p).countP q := by
        rw [htaken, Nat.zero_add]
    _ = value.countP q := by rw [← List.countP_append, List.takeWhile_append_dropWhile]

/-- Dropping bytes of one kind at the end leaves the count of another. -/
theorem countP_reverse_dropWhile (h : ∀ b, q b → p b = false) (value : Bytes) :
    (value.reverse.dropWhile p).reverse.countP q = value.countP q := by
  rw [List.countP_reverse, countP_dropWhile h, List.countP_reverse]

theorem countP_trimText (h : ∀ b, q b → isSpace b = false) (value : Bytes) :
    (trimText value).countP q = value.countP q := by
  rw [trimText, countP_reverse_dropWhile h, countP_dropWhile h]

/-- Cleaning leaves the count of what is neither blank nor trailing punctuation, the connective
apart. -/
theorem countP_cleanAtomValue (hspace : ∀ b, q b → isSpace b = false)
    (hpunctuation : ∀ b, q b → isTrailingPunctuation b = false) (value : Bytes) :
    (cleanAtomValue value).countP q = (cutAtConnective (trimText value)).countP q := by
  rw [cleanAtomValue, countP_trimText hspace, countP_reverse_dropWhile hpunctuation]

end Kept

/-- A value is cut at a connective or left whole. -/
theorem cutAtConnective_cases (value : Bytes) :
    cutAtConnective value = value ∨ ∃ connective ∈ [lit " but ", lit " because "], ∃ pos,
      find (lowerText value) connective = some pos ∧ cutAtConnective value = value.take pos := by
  rw [cutAtConnective]
  split
  · rename_i pos hpos
    exact .inr ⟨_, List.mem_cons_self, pos, hpos, rfl⟩
  · split
    · rename_i pos hpos
      exact .inr ⟨_, List.mem_cons_of_mem _ List.mem_cons_self, pos, hpos, rfl⟩
    · exact .inl rfl

/-! ### Constraints -/

/-- The bytes that are neither white space nor punctuation. -/
def isInk (b : UInt8) : Bool :=
  !isSpace b && !isTrailingPunctuation b

/-- The letter that both connectives start with. -/
def isLetterB (b : UInt8) : Bool :=
  b == 98 || b == 66

theorem isInk_space {b : UInt8} (h : isInk b) : isSpace b = false := by
  rw [isInk, Bool.and_eq_true, Bool.not_eq_true'] at h
  exact h.1

theorem isInk_punctuation {b : UInt8} (h : isInk b) : isTrailingPunctuation b = false := by
  rw [isInk, Bool.and_eq_true, Bool.not_eq_true', Bool.not_eq_true'] at h
  exact h.2

theorem isInk_of_isLetterB {b : UInt8} (h : isLetterB b) : isInk b := by
  rw [isLetterB, Bool.or_eq_true, beq_iff_eq, beq_iff_eq] at h
  rcases h with rfl | rfl <;> decide

/-- What is lowered to b is the letter b. -/
theorem isLetterB_of_toLower {b : UInt8} (h : toLower b = 98) : isLetterB b := by
  rw [toLower] at h
  split at h
  · have hb : b = 66 := by
      rw [← UInt8.add_right_inj 32, UInt8.add_comm 32 b, h]
      rfl
    rw [hb]
    rfl
  · rw [h]
    rfl

/-- What is lowered to a blank is no ink. -/
theorem isInk_of_toLower {b : UInt8} (h : toLower b = 32) : isInk b = false := by
  rw [toLower] at h
  split at h
  · rename_i hupper
    have hb : b = 0 := by
      rw [← UInt8.add_right_inj 32, UInt8.add_comm 32 b, h]
      rfl
    rw [hb] at hupper
    exact absurd hupper (by decide)
  · rw [h]
    rfl

/-- A marker of a constraint: it starts with a letter and ends with a blank, in lower case and without a b. -/
structure ConstraintMarker (marker : Bytes) : Prop where
  start : ∃ b, marker.head? = some b ∧ isInk b
  blank : ∃ word, marker = word ++ [32] ∧ 0 < word.countP isInk
  letters : marker.countP isLetterB = 0

/-- The markers of constraints have what the proof needs of them. -/
theorem constraintMarker_of_mem (h : marker ∈ ["always ", "never ", "do not ", "don't "].map lit) :
    ConstraintMarker marker := by
  rw [List.map_cons, List.map_cons, List.map_cons, List.map_cons, List.map_nil] at h
  rcases List.mem_cons.1 h with rfl | h
  · exact ⟨⟨97, rfl, by decide⟩, ⟨lit "always", rfl, by decide⟩, by decide⟩
  rcases List.mem_cons.1 h with rfl | h
  · exact ⟨⟨110, rfl, by decide⟩, ⟨lit "never", rfl, by decide⟩, by decide⟩
  rcases List.mem_cons.1 h with rfl | h
  · exact ⟨⟨100, rfl, by decide⟩, ⟨lit "do not", rfl, by decide⟩, by decide⟩
  · obtain rfl := List.mem_singleton.1 h
    exact ⟨⟨100, rfl, by decide⟩, ⟨lit "don't", rfl, by decide⟩, by decide⟩

section Constraint

variable {snippet taken : Bytes} (hmarker : ConstraintMarker marker)

include hmarker

/-- A trimmed snippet behind the marker is trimmed. -/
theorem ConstraintMarker.trimText_append (hsnippet : trimText snippet = snippet) (hne : snippet ≠ []) :
    trimText (marker ++ snippet) = marker ++ snippet := by
  obtain ⟨b, hb, hink⟩ := hmarker.start
  have hfront : (marker ++ snippet).dropWhile isSpace = marker ++ snippet := by
    obtain ⟨rest, rfl⟩ := List.head?_eq_some_iff.1 hb
    exact List.dropWhile_cons_of_neg (by rw [isInk_space hink]; exact Bool.false_ne_true)
  have hlast : ¬isSpace (snippet.getLast hne) := by
    have hback := List.rdropWhile_last_not isSpace (snippet.dropWhile isSpace)
    rw [← trimText_eq] at hback
    have hne' : trimText snippet ≠ [] := by rwa [hsnippet]
    have hget : (trimText snippet).getLast hne' = snippet.getLast hne := by simp only [hsnippet]
    rw [← hget]
    exact hback hne'
  rw [trimText_eq, hfront, List.rdropWhile_eq_self_iff]
  intro hl
  rwa [List.getLast_append_of_ne_nil hl hne]

/-- A connective behind the marker starts in the snippet or at the blank of the marker. The byte behind its blank is a
letter b, and stands in the snippet. -/
theorem ConstraintMarker.connective {connective : Bytes} (hconnective : connective ∈ [lit " but ", lit " because "])
    {pos : Nat} (hfind : find (lowerText (marker ++ snippet)) connective = some pos) :
    marker.length ≤ pos + 1 ∧ (∃ b, (marker ++ snippet)[pos]? = some b ∧ isInk b = false) ∧
      ∃ b, (marker ++ snippet)[pos + 1]? = some b ∧ isLetterB b := by
  have hprefix := prefix_drop_of_find hfind
  obtain ⟨tail, rfl⟩ : ∃ tail, connective = 32 :: 98 :: tail := by
    rcases List.mem_pair.1 hconnective with rfl | rfl
    · exact ⟨lit "ut ", rfl⟩
    · exact ⟨lit "ecause ", rfl⟩
  have hat (i : Nat) {c : UInt8} (hc : (32 :: 98 :: tail)[i]? = some c) :
      ∃ b, (marker ++ snippet)[pos + i]? = some b ∧ toLower b = c := by
    obtain ⟨hi, hc⟩ := List.getElem?_eq_some_iff.1 hc
    have hget := List.prefix_iff_getElem?.1 hprefix i hi
    rw [List.getElem?_drop, lowerText, List.getElem?_map, hc, Option.map_eq_some_iff] at hget
    exact hget
  obtain ⟨space, hspace, hlower⟩ := hat 0 rfl
  obtain ⟨letter, hletter, hlowerB⟩ := hat 1 rfl
  have hB := isLetterB_of_toLower hlowerB
  refine ⟨?_, ⟨space, hspace, isInk_of_toLower hlower⟩, letter, hletter, hB⟩
  by_contra hlt
  rw [List.getElem?_append_left (by omega)] at hletter
  have hnone := List.countP_eq_zero.1 hmarker.letters letter (List.mem_of_getElem? hletter)
  exact hnone hB

/-- The snippet of a constraint is no part of the snippet that is extracted. -/
theorem ConstraintMarker.cleanAtomValue_ne (hsnippet : trimText snippet = snippet) (hne : snippet ≠ [])
    (htaken : taken <+: snippet) : cleanAtomValue (marker ++ snippet) ≠ taken := by
  intro heq
  -- the ink and the letters b of the snippet of the constraint
  have hink := countP_cleanAtomValue (q := isInk) (fun b ↦ isInk_space) (fun b ↦ isInk_punctuation)
    (marker ++ snippet)
  have hletters := countP_cleanAtomValue (q := isLetterB) (fun b hb ↦ isInk_space (isInk_of_isLetterB hb))
    (fun b hb ↦ isInk_punctuation (isInk_of_isLetterB hb)) (marker ++ snippet)
  rw [hmarker.trimText_append hsnippet hne, heq] at hink hletters
  obtain ⟨word, hword, hwordInk⟩ := hmarker.blank
  have hmarkerInk : marker.countP isInk = word.countP isInk := by
    rw [hword, List.countP_append]
    rfl
  rcases cutAtConnective_cases (marker ++ snippet) with hcut | ⟨connective, hconnective, pos, hfind, hcut⟩
  · -- it has the ink of the marker and of the whole snippet
    have hle : taken.countP isInk ≤ snippet.countP isInk := htaken.sublist.countP_le
    rw [hcut, List.countP_append] at hink
    omega
  · rw [hcut] at hink hletters
    obtain ⟨hpos, ⟨space, hspace, hspaceInk⟩, letter, hletter, hB⟩ := hmarker.connective hconnective hfind
    generalize hj : pos + 1 - marker.length = j at *
    -- up to the letter b of the connective, the marker and `j` bytes of the snippet
    have htake : (marker ++ snippet).take (pos + 1) = marker ++ snippet.take j := by
      rw [List.take_append, List.take_of_length_le hpos, hj]
    rw [List.take_add_one, hspace] at htake
    have hcount (q : UInt8 → Bool) : ((marker ++ snippet).take pos).countP q + [space].countP q =
        marker.countP q + (snippet.take j).countP q := by
      rw [← List.countP_append, ← List.countP_append]
      exact congrArg (List.countP q) htake
    rcases Nat.lt_or_ge j taken.length with hlong | hshort
    · -- then it has the letter b, which is not in front of the connective
      have hletter : snippet[j]? = some letter := by
        rwa [List.getElem?_append_right hpos, hj] at hletter
      have hle : ((snippet.take j) ++ [letter]).countP isLetterB ≤ taken.countP isLetterB := by
        have hsame : snippet.take j ++ [letter] = snippet.take (j + 1) := by
          rw [List.take_add_one, hletter]
          rfl
        rw [hsame]
        exact (List.prefix_of_prefix_length_le (List.take_prefix _ _) htaken
          ((List.length_take_le _ _).trans hlong)).sublist.countP_le
      have hall := hcount isLetterB
      rw [hmarker.letters] at hall
      rw [List.countP_append, List.countP_singleton, if_pos hB] at hle
      omega
    · -- then it lacks the ink of the marker
      have hle : taken.countP isInk ≤ (snippet.take j).countP isInk := by
        refine (List.prefix_of_prefix_length_le htaken (List.take_prefix _ _) ?_).sublist.countP_le
        have hlength := htaken.length_le
        rw [List.length_take]
        omega
      have hall := hcount isInk
      rw [List.countP_singleton, hspaceInk, if_neg Bool.false_ne_true] at hall
      omega

end Constraint

/-! ### Recorded atoms -/

/-- Trimming a prefix gives a prefix of the trimmed text. -/
theorem trimText_take_prefix {n : Nat} (hn : n ≤ (trimText value).length) :
    trimText (value.take n) <+: trimText value := by
  have hfront : (value.take n).dropWhile isSpace <+: value.dropWhile isSpace := by
    obtain ⟨back, hback⟩ := List.take_prefix n value
    conv_rhs => rw [← hback, List.dropWhile_append]
    split
    · rename_i hnil
      rw [List.isEmpty_iff.1 hnil]
      exact List.nil_prefix
    · exact List.prefix_append _ _
  refine List.prefix_of_prefix_length_le ((List.rdropWhile_prefix _ _).trans hfront) (List.rdropWhile_prefix _ _)
    (((length_trimText_le _).trans (List.length_take_le _ _)).trans hn)

/-- What the range has is the beginning of the snippet. -/
theorem extractAfterMarker_prefix (hsize : text.length < 2 ^ 64)
    (h : extractAfterMarker text marker = some extracted) :
    trimText (sourceText text extracted.sourceStart extracted.sourceEnd) <+: extracted.originalSnippet := by
  have hspan := (extractAfterMarker_spanExact_iff hsize h).2.2
  by_cases hexact : EndsOrTight text marker
  · exact (hspan.2 hexact).snippet_eq ▸ List.prefix_rfl
  · -- the text ends first
    obtain ⟨start, hstart, hrest, -, rfl⟩ := extractAfterMarker_eq_some h
    have hboundary : valueBoundary none (text.drop start) = none := by
      rw [← Option.not_isSome_iff_eq_none]
      intro hsome
      refine hexact fun rest hrest' ↦ ?_
      obtain rfl := Option.some.inj (hrest.symm.trans hrest')
      exact .inl hsome
    have hlength := length_trimText_le (text.drop start)
    rw [List.length_drop] at hlength
    dsimp only
    rw [hboundary, Option.elim_none, Option.getD_none, sourceText]
    have hend : start + (trimText (text.drop start)).length < 2 ^ 64 := by omega
    have hstart64 : (UInt64.ofNat start).toNat = start :=
      UInt64.toNat_ofNat_of_lt' (Nat.lt_of_le_of_lt (Nat.le_add_right _ _) hend)
    rw [UInt64.toNat_ofNat_of_lt' hend, hstart64, Nat.add_sub_cancel_left]
    exact trimText_take_prefix (Nat.le_refl _)

/-- The recorded range of an atom is exact. -/
def ContextAtomMeta.SpanExact (text : Bytes) (atom : ContextAtomMeta) : Prop :=
  SkibidiQL.SpanExact text atom.sourceStart atom.sourceEnd atom.originalSnippet

/-- The first marker that extracts a value is one of the markers. -/
theorem firstExtracted_eq_some {markers : List Bytes} (h : firstExtracted text markers = some (marker, extracted)) :
    marker ∈ markers ∧ extractAfterMarker text marker = some extracted := by
  induction markers with
  | nil => cases h
  | cons first markers ih =>
    rw [firstExtracted] at h
    split at h
    · rename_i hfirst
      cases h
      exact ⟨List.mem_cons_self, hfirst⟩
    · exact (ih h).imp_left (List.mem_cons_of_mem _)

variable {statement : AppendMemoryStmt} {atom : ContextAtomMeta}

/-- An atom made from an extracted value records where it stands. -/
theorem mem_extractedAtom {key type rule confidence : Bytes}
    (h : atom ∈ extractedAtom statement key extracted type rule confidence) :
    atom.sourceStart = extracted.sourceStart ∧ atom.sourceEnd = extracted.sourceEnd ∧
      atom.originalSnippet = extracted.originalSnippet := by
  rw [extractedAtom] at h
  split at h
  · cases h
  · obtain rfl := List.mem_singleton.1 h
    exact ⟨rfl, rfl, rfl⟩

/-- The atom has the range and the snippet that were extracted behind a marker. -/
def RecordsMarker (text : Bytes) (atom : ContextAtomMeta) : Prop :=
  ∃ marker extracted, extractAfterMarker text marker = some extracted ∧
    atom.sourceStart = extracted.sourceStart ∧ atom.sourceEnd = extracted.sourceEnd ∧
      atom.originalSnippet = extracted.originalSnippet

/-- An atom that a marker gives records where it stands. -/
theorem markerAtoms_records {markers : List String} {key type : String}
    (h : atom ∈ markerAtoms statement markers key type) : RecordsMarker statement.text atom := by
  rw [markerAtoms] at h
  split at h
  · cases h
  · rename_i marker extracted hfirst
    exact ⟨marker, extracted, (firstExtracted_eq_some hfirst).2, mem_extractedAtom h⟩

/-- An atom that `remember` gives records where it stands. -/
theorem rememberAtoms_records (h : atom ∈ rememberAtoms statement) : RecordsMarker statement.text atom := by
  rw [rememberAtoms] at h
  split at h
  · cases h
  · rename_i extracted hextracted
    exact ⟨_, extracted, hextracted, mem_extractedAtom h⟩

/-- The snippet of a constraint is not what its range has. -/
theorem constraintAtoms_span (hsize : statement.text.length < 2 ^ 64) (h : atom ∈ constraintAtoms statement) :
    atom.sourceStart ≤ atom.sourceEnd ∧ atom.sourceEnd.toNat ≤ statement.text.length ∧
      ¬atom.SpanExact statement.text := by
  rw [constraintAtoms] at h
  split at h
  · cases h
  · rename_i marker extracted hfirst
    obtain ⟨hmem, hextracted⟩ := firstExtracted_eq_some hfirst
    obtain ⟨hstart, hend, hsnippet⟩ := mem_extractedAtom h
    dsimp only at hstart hend hsnippet
    obtain ⟨hle, hin, -⟩ := extractAfterMarker_spanExact_iff hsize hextracted
    rw [ContextAtomMeta.SpanExact, hstart, hend, hsnippet]
    refine ⟨hle, hin, fun hexact ↦ ?_⟩
    have hprefix := extractAfterMarker_prefix hsize hextracted
    obtain ⟨start, -, -, hvalue, heq⟩ := extractAfterMarker_eq_some hextracted
    obtain ⟨value, hsnippet', hclean⟩ : ∃ value, extracted.originalSnippet = trimText value ∧
        cleanAtomValue value ≠ [] := ⟨_, by rw [heq], hvalue⟩
    refine (constraintMarker_of_mem hmem).cleanAtomValue_ne ?_ ?_ hprefix hexact.snippet_eq.symm
    · rw [hsnippet', trimText_trimText]
    · rw [hsnippet']
      exact fun hnil ↦ hclean (cleanAtomValue_of_trimText hnil)

/-- An extracted atom is a question, a constraint or records its marker. -/
theorem mem_extractContextAtoms (h : atom ∈ extractContextAtoms statement) :
    atom ∈ questionAtoms statement ∨ atom ∈ constraintAtoms statement ∨ RecordsMarker statement.text atom := by
  simp only [extractContextAtoms, List.mem_append] at h
  rcases h with ((((((((h | h) | h) | h) | h) | h) | h) | h) | h) | h
  · exact .inr (.inr (markerAtoms_records h))
  · exact .inr (.inr (markerAtoms_records h))
  · exact .inr (.inr (markerAtoms_records h))
  · exact .inr (.inr (markerAtoms_records h))
  · exact .inr (.inr (rememberAtoms_records h))
  · exact .inr (.inl h)
  · exact .inr (.inr (markerAtoms_records h))
  · exact .inr (.inr (markerAtoms_records h))
  · exact .inr (.inr (markerAtoms_records h))
  · exact .inl h

/-- The ranges lie in the text. A range is that of its snippet exactly when a sentence ends behind the marker or no
white space follows it; of the atoms that record a marker, a constraint never has the range of its snippet. -/
theorem sourceSpans_exact_iff (statement : AppendMemoryStmt) (hsize : statement.text.length < 2 ^ 64) :
    (∀ marker extracted, extractAfterMarker statement.text marker = some extracted →
      extracted.sourceStart ≤ extracted.sourceEnd ∧ extracted.sourceEnd.toNat ≤ statement.text.length ∧
        (SpanExact statement.text extracted.sourceStart extracted.sourceEnd extracted.originalSnippet ↔
          EndsOrTight statement.text marker)) ∧
    ∀ atom ∈ extractContextAtoms statement, atom ∉ questionAtoms statement →
      atom.sourceStart ≤ atom.sourceEnd ∧ atom.sourceEnd.toNat ≤ statement.text.length ∧
        (atom ∈ constraintAtoms statement ∧ ¬atom.SpanExact statement.text ∨
          ∃ marker extracted, extractAfterMarker statement.text marker = some extracted ∧
            atom.originalSnippet = extracted.originalSnippet ∧
              (atom.SpanExact statement.text ↔ EndsOrTight statement.text marker)) := by
  refine ⟨fun marker extracted h ↦ extractAfterMarker_spanExact_iff hsize h, fun atom hatom hquestion ↦ ?_⟩
  rcases (mem_extractContextAtoms hatom).resolve_left hquestion with
    hconstraint | ⟨marker, extracted, hextracted, hstart, hend, hsnippet⟩
  · obtain ⟨hle, hin, hspan⟩ := constraintAtoms_span hsize hconstraint
    exact ⟨hle, hin, .inl ⟨hconstraint, hspan⟩⟩
  · obtain ⟨hle, hin, hspan⟩ := extractAfterMarker_spanExact_iff hsize hextracted
    rw [ContextAtomMeta.SpanExact, hstart, hend, hsnippet]
    exact ⟨hle, hin, .inr ⟨marker, extracted, hextracted, rfl, hspan⟩⟩

/-- The message `I live in Oslo.` -/
theorem sourceSpans_exact_oslo :
    (10 : UInt64) ≤ 14 ∧ (14 : UInt64).toNat ≤ (lit "I live in Oslo.").length ∧
      (SpanExact (lit "I live in Oslo.") 10 14 (lit "Oslo") ↔
        EndsOrTight (lit "I live in Oslo.") (lit "i live in ")) := by
  have hextracted : extractAfterMarker (lit "I live in Oslo.") (lit "i live in ") =
      some { value := lit "Oslo", sourceStart := 10, sourceEnd := 14, originalSnippet := lit "Oslo" } := by
    decide +kernel
  exact (sourceSpans_exact_iff { context := lit "chat", text := lit "I live in Oslo." } (by decide)).1 _ _ hextracted

/-- In `I live in  Oslo`, with two blanks behind the marker, the range has ` Osl`. -/
theorem sourceSpans_not_exact :
    ¬∀ text marker extracted, text.length < 2 ^ 64 → extractAfterMarker text marker = some extracted →
      SpanExact text extracted.sourceStart extracted.sourceEnd extracted.originalSnippet := by
  intro h
  have hextracted : extractAfterMarker (lit "I live in  Oslo") (lit "i live in ") =
      some { value := lit "Oslo", sourceStart := 10, sourceEnd := 14, originalSnippet := lit "Oslo" } := by
    decide +kernel
  have hspan := (h _ _ _ (by decide) hextracted).snippet_eq
  revert hspan
  decide +kernel

end SkibidiQL
