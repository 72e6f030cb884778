import SkibidiQL.Catalog.CatalogFile

/-!
# Reading back what was written

`Reads p text a` says that the reader `p` finds `a` in `text`, behind any white space and up to whatever
follows. The rules follow the shape of the text: strings, numbers, arrays and objects.
-/

namespace SkibidiQL

open Bytes

namespace Json

/-- White space only. -/
def AllSpace (space : Bytes) : Prop :=
  ∀ b ∈ space, isSpace b

/-- The text does not go on with a digit. -/
def NoDigit (rest : Bytes) : Prop :=
  ∀ b ∈ rest.head?, ¬isDigit b

/-- The reader finds `a` in the text. -/
def Reads {α : Type} (p : JsonM α) (text : Bytes) (a : α) : Prop :=
  ∀ space rest, AllSpace space → NoDigit rest → p (space ++ (text ++ rest)) = .ok a rest

variable {α σ : Type} {space rest text : Bytes}

/-! ### White space -/

/-- Blanks are no digits. -/
theorem isSpace_not_isDigit {b : UInt8} (h : isSpace b) : ¬isDigit b := by
  unfold isSpace at h
  unfold isDigit
  simp only [Bool.or_eq_true, beq_iff_eq, Bool.and_eq_true, decide_eq_true_eq, UInt8.le_iff_toNat_le] at *
  rcases h with rfl | h
  · decide
  · rw [show UInt8.toNat 13 = 13 from rfl] at h
    rw [show UInt8.toNat 48 = 48 from rfl]
    omega

theorem dropWhile_space {b : UInt8} (hspace : AllSpace space) (hb : ¬isSpace b) :
    (space ++ b :: rest).dropWhile isSpace = b :: rest := by
  rw [List.dropWhile_append_of_pos hspace, List.dropWhile_cons_of_neg hb]

/-- A text that begins with no digit. -/
theorem noDigit_cons {b : UInt8} (hb : ¬isDigit b) : NoDigit (b :: rest) := by
  rintro c hc
  obtain rfl := Option.some.inj hc
  exact hb

/-- A text that begins with blanks and no digit behind them. -/
theorem noDigit_space {b : UInt8} (hspace : AllSpace space) (hb : ¬isDigit b) :
    NoDigit (space ++ b :: rest) := by
  cases space with
  | nil => exact noDigit_cons hb
  | cons c space => exact noDigit_cons (isSpace_not_isDigit (hspace c List.mem_cons_self))

theorem AllSpace.append {space' : Bytes} (h : AllSpace space) (h' : AllSpace space') :
    AllSpace (space ++ space') :=
  fun b hb ↦ (List.mem_append.1 hb).elim (h b) (h' b)

theorem allSpace_nil : AllSpace [] := nofun

theorem whitespace_eq {b : UInt8} (hspace : AllSpace space) (hb : ¬isSpace b) :
    whitespace (space ++ b :: rest) = .ok ⟨⟩ (b :: rest) := by
  show EStateM.Result.ok _ ((space ++ b :: rest).dropWhile isSpace) = _
  rw [dropWhile_space hspace hb]

/-- A byte that stands there is consumed. -/
theorem consume_eq {b : UInt8} (hspace : AllSpace space) (hb : ¬isSpace b) :
    consume b (space ++ b :: rest) = .ok true rest := by
  rw [consume, EStateM.bind_of_ok (whitespace_eq hspace hb)]
  simp only [bind, EStateM.bind, get, getThe, MonadStateOf.get, EStateM.get, if_true]
  rfl

/-- A byte that does not stand there is not consumed, but the blanks before it are. -/
theorem consume_ne {b c : UInt8} (hspace : AllSpace space) (hc : ¬isSpace c) (hne : c ≠ b) :
    consume b (space ++ c :: rest) = .ok false (c :: rest) := by
  rw [consume, EStateM.bind_of_ok (whitespace_eq hspace hc)]
  simp only [bind, EStateM.bind, get, getThe, MonadStateOf.get, EStateM.get, if_neg hne]
  rfl

/-- A byte that is expected and stands there is read. -/
theorem expect_eq {b : UInt8} (hspace : AllSpace space) (hb : ¬isSpace b) :
    expect b (space ++ b :: rest) = .ok ⟨⟩ rest := by
  rw [expect, EStateM.bind_of_ok (consume_eq hspace hb)]
  rfl

/-! ### Strings -/

/-- A control character is read back from its escape. -/
theorem unicodeEscape_eq : ∀ n < 32, unicodeEscape [48, 48,
    (lit "0123456789abcdef").getD (n / 16) 0, (lit "0123456789abcdef").getD (n % 16) 0] =
    .ok (UInt8.ofNat n) := by
  decide +kernel

/-- An escaped byte is read back, whatever follows. -/
theorem stringBody_escapeByte (ch : UInt8) (text : Bytes) :
    stringBody (escapeByte ch ++ text) =
      (stringBody text).map fun result ↦ (ch :: result.1, result.2) := by
  have hmap : ∀ byte : UInt8, (stringBody text >>= fun result ↦ pure (byte :: result.1, result.2)) =
      (stringBody text).map fun result ↦ (byte :: result.1, result.2) := by
    intro byte
    cases stringBody text <;> rfl
  unfold escapeByte
  split_ifs with h34 h92 h8 h12 h10 h13 h9 hlow
  · subst h34
    exact hmap 34
  · subst h92
    exact hmap 92
  · subst h8
    exact hmap 8
  · subst h12
    exact hmap 12
  · subst h10
    exact hmap 10
  · subst h13
    exact hmap 13
  · subst h9
    exact hmap 9
  · have hlt : ch.toNat < 32 := hlow
    have hescape := unicodeEscape_eq ch.toNat hlt
    rw [UInt8.ofNat_toNat] at hescape
    show (unicodeEscape [48, 48, _, _] >>= _) = _
    rw [hescape]
    exact hmap ch
  · rw [List.singleton_append, stringBody]
    · exact hmap ch
    all_goals simp_all

/-- An escaped text is read back up to its quote. -/
theorem stringBody_escapeJson (value rest : Bytes) :
    stringBody (escapeJson value ++ 34 :: rest) = .ok (value, rest) := by
  induction value with
  | nil => rfl
  | cons ch value ih =>
    rw [escapeJson, List.flatMap_cons, List.append_assoc, stringBody_escapeByte]
    unfold escapeJson at ih
    rw [ih]
    rfl

/-- A quoted text is read back. -/
theorem reads_quoted (value : Bytes) : Reads parseString (CatalogFile.quoted value) value := by
  intro space rest hspace _
  have htext : space ++ (CatalogFile.quoted value ++ rest) =
      space ++ 34 :: (escapeJson value ++ 34 :: rest) := by
    rw [CatalogFile.quoted, show lit "\"" = [34] from rfl]
    simp only [List.append_assoc, List.cons_append, List.nil_append]
  rw [htext, parseString, EStateM.bind_of_ok (whitespace_eq hspace (by decide))]
  simp only [bind, EStateM.bind, get, getThe, MonadStateOf.get, EStateM.get, stringBody_escapeJson]
  rfl

/-! ### Numbers and booleans -/

theorem decimal_append (digits : Bytes) (b : UInt8) :
    decimal (digits ++ [b]) = decimal digits * 10 + (b.toNat - 48) := by
  rw [decimal, List.foldl_append]
  rfl

/-- Digits written from the highest down have the value of the digits. -/
theorem decimal_reverse_digits {digits : List Nat} (h : ∀ d ∈ digits, d < 10) :
    decimal (digits.map fun d ↦ UInt8.ofNat (48 + d)).reverse = Nat.ofDigits 10 digits := by
  induction digits with
  | nil => rfl
  | cons d digits ih =>
    have hd : d < 10 := h d List.mem_cons_self
    have hbyte : (UInt8.ofNat (48 + d)).toNat = 48 + d := by
      rw [UInt8.toNat_ofNat']
      omega
    rw [List.map_cons, List.reverse_cons, decimal_append,
      ih fun e he ↦ h e (List.mem_cons_of_mem _ he), hbyte, Nat.ofDigits_cons]
    omega

/-- A number is read back from its digits. -/
theorem decimal_ofNat (n : Nat) : decimal (ofNat n) = n := by
  unfold ofNat
  split
  · rename_i hzero
    rw [hzero]
    rfl
  · rw [decimal_reverse_digits fun d hd ↦ Nat.digits_lt_base (by omega) hd, Nat.ofDigits_digits]

/-- A number is read back. -/
theorem reads_number (n : UInt64) : Reads parseUnsigned (ofNat n.toNat) n := by
  intro space rest hspace hrest
  have hdigits := isDigit_ofNat n.toNat
  obtain ⟨b, digits, hcons⟩ := List.exists_cons_of_ne_nil (ofNat_ne_nil n.toNat)
  have hb : ¬isSpace b := fun hs ↦ isSpace_not_isDigit hs
    (hdigits b (hcons ▸ List.mem_cons_self))
  have hstop : rest.takeWhile isDigit = [] ∧ rest.dropWhile isDigit = rest := by
    cases rest with
    | nil => exact ⟨rfl, rfl⟩
    | cons c rest =>
      have hc : ¬isDigit c := hrest c rfl
      rw [List.takeWhile_cons_of_neg hc, List.dropWhile_cons_of_neg hc]
      exact ⟨rfl, rfl⟩
  have hdrop : whitespace (space ++ (ofNat n.toNat ++ rest)) = .ok ⟨⟩ (ofNat n.toNat ++ rest) := by
    rw [hcons]
    exact whitespace_eq hspace hb
  have htake : (ofNat n.toNat ++ rest).takeWhile isDigit = ofNat n.toNat := by
    rw [List.takeWhile_append_of_pos hdigits, hstop.1, List.append_nil]
  have hrestEq : (ofNat n.toNat ++ rest).dropWhile isDigit = rest := by
    rw [List.dropWhile_append_of_pos hdigits, hstop.2]
  have hsmall : ¬n.toNat ≥ 18446744073709551616 := Nat.not_le.2 n.toNat_lt
  have hempty : (ofNat n.toNat).isEmpty = false := List.isEmpty_eq_false_iff.2 (ofNat_ne_nil _)
  rw [parseUnsigned, EStateM.bind_of_ok hdrop]
  simp only [bind, EStateM.bind, get, getThe, MonadStateOf.get, EStateM.get, htake, hempty, hrestEq,
    decimal_ofNat, if_neg hsmall, Bool.false_eq_true, if_false, UInt64.ofNat_toNat, pure, EStateM.pure,
    set, EStateM.set]

/-- A Boolean is read back. -/
theorem reads_bool (value : Bool) : Reads parseBool (CatalogFile.writeBool value) value := by
  intro space rest hspace _
  cases value with
  | true =>
    rw [parseBool, show space ++ (CatalogFile.writeBool true ++ rest) =
      space ++ 116 :: (lit "rue" ++ rest) from rfl, EStateM.bind_of_ok (whitespace_eq hspace (by decide))]
    rfl
  | false =>
    rw [parseBool, show space ++ (CatalogFile.writeBool false ++ rest) =
      space ++ 102 :: (lit "alse" ++ rest) from rfl,
      EStateM.bind_of_ok (whitespace_eq hspace (by decide))]
    rfl

/-! ### Arrays -/

/-- The text starts with a byte that is no white space and closes nothing. -/
def Opens (text : Bytes) : Prop :=
  ∃ b rest, text = b :: rest ∧ ¬isSpace b ∧ b ≠ 93 ∧ b ≠ 125

/-- A comma and white space. -/
structure Separator (separator : Bytes) : Prop where
  comma : ∃ space, separator = 44 :: space ∧ AllSpace space

/-- The rest of the text goes on with the closing byte. -/
structure Closes (close : UInt8) (text rest : Bytes) : Prop where
  space : ∃ space, text = space ++ close :: rest ∧ AllSpace space
  byte : close = 93 ∨ close = 125

/-- What closes a block begins with no digit. -/
theorem Closes.noDigit {close : UInt8} (h : Closes close text rest) : NoDigit text := by
  obtain ⟨space, rfl, hspace⟩ := h.space
  refine noDigit_space hspace ?_
  rcases h.byte with rfl | rfl <;> decide

/-- No comma is consumed before a closing bracket. -/
theorem Closes.not_comma {close : UInt8} (h : Closes close text rest) :
    consume 44 text = .ok false (close :: rest) := by
  obtain ⟨space, rfl, hspace⟩ := h.space
  rcases h.byte with rfl | rfl <;> exact consume_ne hspace (by decide) (by decide)

/-- Joined texts, the first apart. -/
theorem joinStrings_cons (separator part : Bytes) (parts : List Bytes) :
    joinStrings separator (part :: parts) = part ++ parts.flatMap (separator ++ ·) := by
  induction parts generalizing part with
  | nil => rw [joinStrings, List.flatMap_nil, List.append_nil]
  | cons next parts ih =>
    rw [joinStrings, ih, List.flatMap_cons]
    · simp only [List.append_assoc]
    · exact fun h ↦ List.cons_ne_nil _ _ h

/-- The loop over the elements of an array. -/
theorem elements_eq {element : JsonM α} {separator close : Bytes} {c : UInt8}
    (hseparator : Separator separator) (hclose : Closes c close rest) {first : Bytes × α}
    {items : List (Bytes × α)} (hfirst : Reads element first.1 first.2)
    (hitems : ∀ item ∈ items, Reads element item.1 item.2) {fuel : Nat} (hfuel : items.length < fuel)
    (hspace : AllSpace space) :
    elements element fuel
        (space ++ (first.1 ++ (items.flatMap (separator ++ ·.1) ++ close))) =
      .ok (first.2 :: items.map (·.2)) (c :: rest) := by
  induction items generalizing first fuel space with
  | nil =>
    obtain ⟨fuel, rfl⟩ := Nat.exists_eq_succ_of_ne_zero (Nat.ne_of_gt hfuel)
    rw [List.flatMap_nil, List.nil_append, elements,
      EStateM.bind_of_ok (hfirst space close hspace hclose.noDigit),
      EStateM.bind_of_ok hclose.not_comma]
    rfl
  | cons item items ih =>
    obtain ⟨fuel, rfl⟩ := Nat.exists_eq_succ_of_ne_zero (Nat.ne_of_gt (Nat.zero_lt_of_lt hfuel))
    obtain ⟨gap, rfl, hgap⟩ := hseparator.comma
    have hrun := ih (hitems item List.mem_cons_self)
      (fun other hother ↦ hitems other (List.mem_cons_of_mem _ hother))
      (Nat.lt_of_succ_lt_succ hfuel) hgap
    rw [List.flatMap_cons]
    simp only [List.cons_append, List.append_assoc] at hrun ⊢
    have hconsume : ∀ text, consume 44 (44 :: text) = .ok true text := fun text ↦
      consume_eq allSpace_nil (by decide)
    rw [elements, EStateM.bind_of_ok (hfirst space _ hspace (noDigit_cons (by decide))),
      EStateM.bind_of_ok (hconsume _)]
    show (do
      let others ← elements element fuel
      pure (first.2 :: others)) _ = _
    rw [EStateM.bind_of_ok hrun]
    rfl

/-- There are no more items than bytes. -/
theorem length_flatMap_separator {separator : Bytes} (h : Separator separator)
    (items : List (Bytes × α)) : items.length ≤ (items.flatMap (separator ++ ·.1)).length := by
  obtain ⟨gap, rfl, -⟩ := h.comma
  induction items with
  | nil => exact Nat.le_refl _
  | cons item items ih =>
    rw [List.flatMap_cons, List.length_append, List.length_append, List.length_cons, List.length_cons]
    omega

/-- A text that opens an element is not taken for the end of the block. -/
theorem Opens.consume_ne {first : Bytes} (h : Opens first) (hspace : AllSpace space) (text : Bytes) :
    consume 93 (space ++ (first ++ text)) = .ok false (first ++ text) ∧
      consume 125 (space ++ (first ++ text)) = .ok false (first ++ text) := by
  obtain ⟨b, rest, rfl, hb, hbracket, hbrace⟩ := h
  exact ⟨Json.consume_ne hspace hb hbracket, Json.consume_ne hspace hb hbrace⟩

/-- An empty array is read back. -/
theorem reads_array_nil (element : JsonM α) : Reads (parseArray element) [91, 93] [] := by
  intro space rest hspace _
  have hopen : expect 91 (space ++ 91 :: 93 :: rest) = .ok ⟨⟩ (93 :: rest) :=
    expect_eq hspace (by decide)
  have hclose : consume 93 (93 :: rest) = .ok true rest := consume_eq allSpace_nil (by decide)
  show parseArray element (space ++ 91 :: 93 :: rest) = _
  rw [parseArray, EStateM.bind_of_ok hopen, EStateM.bind_of_ok hclose]
  rfl

/-- An array is read back when its elements are, in either layout. -/
theorem reads_array_cons {element : JsonM α} {separator : Bytes} (hseparator : Separator separator)
    {open' close : Bytes} (hopen : AllSpace open') (hclose : AllSpace close) (first : Bytes × α)
    (items : List (Bytes × α)) (hopens : Opens first.1)
    (hitems : ∀ item ∈ first :: items, Reads element item.1 item.2) :
    Reads (parseArray element)
      (91 :: (open' ++ (first.1 ++ (items.flatMap (separator ++ ·.1) ++ (close ++ [93])))))
      (first.2 :: items.map (·.2)) := by
  intro space rest hspace _
  have hcloses : Closes 93 (close ++ 93 :: rest) rest := ⟨⟨close, rfl, hclose⟩, .inl rfl⟩
  set tail := items.flatMap (separator ++ ·.1) ++ (close ++ 93 :: rest) with htail
  have htext : space ++ (91 :: (open' ++ (first.1 ++ (items.flatMap (separator ++ ·.1) ++
      (close ++ [93])))) ++ rest) = space ++ 91 :: (open' ++ (first.1 ++ tail)) := by
    rw [htail]
    simp only [List.cons_append, List.append_assoc, List.nil_append]
  have hstart : expect 91 (space ++ 91 :: (open' ++ (first.1 ++ tail))) =
      .ok ⟨⟩ (open' ++ (first.1 ++ tail)) := expect_eq hspace (by decide)
  have hfuel : items.length < (first.1 ++ tail).length + 1 := by
    have hlength := length_flatMap_separator hseparator items
    rw [htail, List.length_append, List.length_append]
    omega
  have hrun := elements_eq hseparator hcloses (hitems first List.mem_cons_self)
    (fun item hitem ↦ hitems item (List.mem_cons_of_mem _ hitem)) hfuel allSpace_nil
  rw [List.nil_append, ← htail] at hrun
  have hend : expect 93 (93 :: rest) = .ok ⟨⟩ rest := expect_eq allSpace_nil (by decide)
  rw [htext, parseArray, EStateM.bind_of_ok hstart,
    EStateM.bind_of_ok (hopens.consume_ne hopen tail).1]
  show (do
    let result ← elements element ((first.1 ++ tail).length + 1)
    expect 93
    pure result) (first.1 ++ tail) = _
  rw [EStateM.bind_of_ok hrun, EStateM.bind_of_ok hend]
  rfl

/-! ### Objects -/

/-- The fields, with the texts of their values, take one record to another. -/
inductive FieldsRead (field : Bytes → σ → JsonM σ) : List (Bytes × Bytes) → σ → σ → Prop where
  | nil (record : σ) : FieldsRead field [] record record
  | cons {key value : Bytes} {items : List (Bytes × Bytes)} {record record' record'' : σ} :
    Reads (field key record) value record' → FieldsRead field items record' record'' →
    FieldsRead field ((key, value) :: items) record record''

/-- A field of an object. -/
def fieldText (item : Bytes × Bytes) : Bytes :=
  CatalogFile.quoted item.1 ++ lit ": " ++ item.2

theorem opens_quoted (value rest : Bytes) : Opens (CatalogFile.quoted value ++ rest) :=
  ⟨34, _, rfl, by decide, by decide, by decide⟩

/-- One field of an object. -/
theorem fieldRound_eq {field : Bytes → σ → JsonM σ} {item : Bytes × Bytes} {record record' : σ}
    (hread : Reads (field item.1 record) item.2 record') (hspace : AllSpace space)
    (hrest : NoDigit rest) {β : Type} (next : σ → JsonM β) :
    (do
      let key ← parseString
      expect 58
      let record ← field key record
      next record) (space ++ (fieldText item ++ rest)) = next record' rest := by
  have htext : space ++ (fieldText item ++ rest) =
      space ++ (CatalogFile.quoted item.1 ++ (58 :: ([32] ++ (item.2 ++ rest)))) := by
    rw [fieldText, show lit ": " = [58, 32] from rfl]
    simp only [List.append_assoc, List.cons_append, List.nil_append]
  have hcolon : expect 58 (58 :: ([32] ++ (item.2 ++ rest))) = .ok ⟨⟩ ([32] ++ (item.2 ++ rest)) :=
    expect_eq allSpace_nil (by decide)
  have hblank : AllSpace [32] := by
    intro b hb
    rw [List.mem_singleton.1 hb]
    rfl
  rw [htext, EStateM.bind_of_ok (reads_quoted item.1 space _ hspace (noDigit_cons (by decide))),
    EStateM.bind_of_ok hcolon, EStateM.bind_of_ok (hread [32] rest hblank hrest)]

/-- The loop over the fields of an object. -/
theorem fields_eq {field : Bytes → σ → JsonM σ} {separator close : Bytes} {c : UInt8}
    (hseparator : Separator separator) (hclose : Closes c close rest) {first : Bytes × Bytes}
    {items : List (Bytes × Bytes)} {record record' : σ}
    (hread : FieldsRead field (first :: items) record record') {fuel : Nat}
    (hfuel : items.length < fuel) (hspace : AllSpace space) :
    fields field fuel record
        (space ++ (fieldText first ++ (items.flatMap (separator ++ fieldText ·) ++ close))) =
      .ok record' (c :: rest) := by
  obtain ⟨fuel, rfl⟩ := Nat.exists_eq_succ_of_ne_zero (Nat.ne_of_gt (Nat.zero_lt_of_lt hfuel))
  induction items generalizing first fuel space record with
  | nil =>
    obtain _ | ⟨hfirst, _ | _⟩ := hread
    rw [List.flatMap_nil, List.nil_append, fields, fieldRound_eq hfirst hspace hclose.noDigit,
      EStateM.bind_of_ok hclose.not_comma]
    rfl
  | cons item items ih =>
    obtain _ | ⟨hfirst, hitems⟩ := hread
    obtain ⟨gap, hgapEq, hgap⟩ := hseparator.comma
    have hfuel' := Nat.lt_of_succ_lt_succ hfuel
    obtain ⟨fuel, rfl⟩ := Nat.exists_eq_succ_of_ne_zero (Nat.ne_of_gt (Nat.zero_lt_of_lt hfuel'))
    have hrun := ih hitems hgap fuel hfuel'
    have hconsume : ∀ text, consume 44 (44 :: text) = .ok true text := fun text ↦
      consume_eq allSpace_nil (by decide)
    have htext : (item :: items).flatMap (separator ++ fieldText ·) ++ close =
        44 :: (gap ++ (fieldText item ++ (items.flatMap (separator ++ fieldText ·) ++ close))) := by
      rw [List.flatMap_cons, hgapEq]
      simp only [List.cons_append, List.append_assoc]
    rw [htext, fields, fieldRound_eq hfirst hspace (noDigit_cons (by decide)),
      EStateM.bind_of_ok (hconsume _)]
    exact hrun

/-- A text of an object that has fields. -/
theorem reads_object? {field : Bytes → σ → JsonM σ} {separator : Bytes}
    (hseparator : Separator separator) {open' close : Bytes} (hopen : AllSpace open')
    (hclose : AllSpace close) {first : Bytes × Bytes} {items : List (Bytes × Bytes)}
    {record record' : σ} (hread : FieldsRead field (first :: items) record record') :
    Reads (parseObject? field record)
      (123 :: (open' ++ (fieldText first ++
        (items.flatMap (separator ++ fieldText ·) ++ (close ++ [125])))))
      (some record') := by
  intro space rest hspace _
  have hcloses : Closes 125 (close ++ 125 :: rest) rest := ⟨⟨close, rfl, hclose⟩, .inr rfl⟩
  set tail := items.flatMap (separator ++ fieldText ·) ++ (close ++ 125 :: rest) with htail
  have htext : space ++ (123 :: (open' ++ (fieldText first ++
      (items.flatMap (separator ++ fieldText ·) ++ (close ++ [125])))) ++ rest) =
      space ++ 123 :: (open' ++ (fieldText first ++ tail)) := by
    rw [htail]
    simp only [List.cons_append, List.append_assoc, List.nil_append]
  have hstart : expect 123 (space ++ 123 :: (open' ++ (fieldText first ++ tail))) =
      .ok ⟨⟩ (open' ++ (fieldText first ++ tail)) := expect_eq hspace (by decide)
  have hopens : Opens (fieldText first) := by
    rw [fieldText, List.append_assoc]
    exact opens_quoted _ _
  -- Every field takes at least one byte, so the length of the text is fuel enough.
  have hfuel : items.length < (fieldText first ++ tail).length + 1 := by
    have hlength : items.length ≤ (items.flatMap (separator ++ fieldText ·)).length := by
      have hmap := length_flatMap_separator hseparator (items.map fun item ↦ (fieldText item, ()))
      rw [List.length_map, List.flatMap_map] at hmap
      exact hmap
    rw [htail, List.length_append, List.length_append]
    omega
  have hrun := fields_eq hseparator hcloses hread hfuel allSpace_nil
  rw [List.nil_append, ← htail] at hrun
  have hend : expect 125 (125 :: rest) = .ok ⟨⟩ rest := expect_eq allSpace_nil (by decide)
  rw [htext, parseObject?, EStateM.bind_of_ok hstart,
    EStateM.bind_of_ok (hopens.consume_ne hopen tail).2]
  show (do
    let record ← fields field ((fieldText first ++ tail).length + 1) record
    expect 125
    pure (some record)) (fieldText first ++ tail) = _
  rw [EStateM.bind_of_ok hrun, EStateM.bind_of_ok hend]
  rfl

/-- An object without fields is read as none. -/
theorem reads_object?_nil (field : Bytes → σ → JsonM σ) (record : σ) :
    Reads (parseObject? field record) [123, 125] none := by
  intro space rest hspace _
  have hopen : expect 123 (space ++ 123 :: 125 :: rest) = .ok ⟨⟩ (125 :: rest) :=
    expect_eq hspace (by decide)
  have hclose : consume 125 (125 :: rest) = .ok true rest := consume_eq allSpace_nil (by decide)
  show parseObject? field record (space ++ 123 :: 125 :: rest) = _
  rw [parseObject?, EStateM.bind_of_ok hopen, EStateM.bind_of_ok hclose]
  rfl

/-- A reader followed by a change of its result. -/
theorem Reads.into {β : Type} {p : JsonM α} {a : α} (h : Reads p text a) (store : α → β) :
    Reads (CatalogFile.into p store) text (store a) := by
  intro space rest hspace hrest
  rw [CatalogFile.into, EStateM.bind_of_ok (h space rest hspace hrest)]
  rfl

/-- An object that may be missing is read with its default. -/
theorem Reads.object {field : Bytes → σ → JsonM σ} {record : σ} {record? : Option σ}
    (h : Reads (parseObject? field record) text record?) :
    Reads (parseObject field record) text (record?.getD record) :=
  h.into (·.getD record)

end Json

end SkibidiQL
