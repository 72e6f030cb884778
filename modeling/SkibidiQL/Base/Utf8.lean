import SkibidiQL.Base.Bytes

/-!
# UTF-8

The bytes of a text, and that they keep the order of texts: a list of code points is compared like the
bytes of its encoding.
-/

namespace SkibidiQL

/-- The UTF-8 bytes of a text. -/
def encodeUtf8 (text : List Char) : Bytes :=
  text.flatMap String.utf8EncodeChar

variable {c d : Char} {value : List Char}

/-- A character is encoded as one byte when it is below 128, and else in bytes that are all above. -/
theorem utf8EncodeChar_cases (c : Char) :
    (c.toNat < 128 ∧ String.utf8EncodeChar c = [UInt8.ofNat c.toNat]) ∨
      (128 ≤ c.toNat ∧ String.utf8EncodeChar c ≠ [] ∧ ∀ b ∈ String.utf8EncodeChar c, 128 ≤ b) := by
  have hvalid : c.val.toNat < 1114112 := c.valid.elim (fun h ↦ by omega) fun h ↦ h.2
  have hbyte (n : Nat) (hn : 128 ≤ n) (hlt : n < 256) : (128 : UInt8) ≤ UInt8.ofNat n := by
    rw [UInt8.le_iff_toNat_le, UInt8.toNat_ofNat_of_lt' hlt]
    exact hn
  rw [show c.toNat = c.val.toNat from rfl]
  unfold String.utf8EncodeChar
  simp only
  split
  · exact .inl ⟨by omega, rfl⟩
  refine .inr ⟨by omega, ?_⟩
  split
  · refine ⟨List.cons_ne_nil _ _, ?_⟩
    simp only [List.forall_mem_cons]
    exact ⟨hbyte _ (by omega) (by omega), hbyte _ (by omega) (by omega), List.forall_mem_nil _⟩
  split
  · refine ⟨List.cons_ne_nil _ _, ?_⟩
    simp only [List.forall_mem_cons]
    exact ⟨hbyte _ (by omega) (by omega), hbyte _ (by omega) (by omega),
      hbyte _ (by omega) (by omega), List.forall_mem_nil _⟩
  · refine ⟨List.cons_ne_nil _ _, ?_⟩
    simp only [List.forall_mem_cons]
    exact ⟨hbyte _ (by omega) (by omega), hbyte _ (by omega) (by omega),
      hbyte _ (by omega) (by omega), hbyte _ (by omega) (by omega), List.forall_mem_nil _⟩

/-- The byte of a character below 128 occurs in the encoding of that character only. -/
theorem mem_utf8EncodeChar_iff {a : Char} (ha : a.toNat < 128) :
    UInt8.ofNat a.toNat ∈ String.utf8EncodeChar c ↔ c = a := by
  obtain ⟨hc, heq⟩ | ⟨hc, -, hall⟩ := utf8EncodeChar_cases c
  · rw [heq, List.mem_singleton, ← UInt8.toNat_inj, UInt8.toNat_ofNat_of_lt' (by omega : a.toNat < 256),
      UInt8.toNat_ofNat_of_lt' (by omega : c.toNat < 256), Char.toNat_inj]
    exact eq_comm
  · constructor
    · intro hmem
      have hle := UInt8.le_iff_toNat_le.1 (hall _ hmem)
      rw [UInt8.toNat_ofNat_of_lt' (by omega : a.toNat < 256)] at hle
      exact absurd (Nat.lt_of_lt_of_le ha hle) (Nat.lt_irrefl _)
    · rintro rfl
      exact absurd hc (Nat.not_le_of_lt ha)

theorem encodeUtf8_cons : encodeUtf8 (c :: value) = String.utf8EncodeChar c ++ encodeUtf8 value :=
  List.flatMap_cons

theorem encodeUtf8_append {value' : List Char} :
    encodeUtf8 (value ++ value') = encodeUtf8 value ++ encodeUtf8 value' :=
  List.flatMap_append

/-- A byte below 128 is a character of its own, and cuts the text in two. -/
theorem exists_of_encodeUtf8_eq_append {bytes rest : Bytes} {b : UInt8} (hb : b < 128)
    (h : encodeUtf8 value = bytes ++ b :: rest) :
    ∃ front back, encodeUtf8 front = bytes ∧ encodeUtf8 back = rest ∧
      value = front ++ Char.ofNat b.toNat :: back := by
  induction value generalizing bytes with
  | nil => exact absurd h.symm (List.append_ne_nil_of_right_ne_nil _ (List.cons_ne_nil _ _))
  | cons c value ih =>
    rw [encodeUtf8_cons] at h
    rcases List.append_eq_append_iff.1 h with ⟨bytes', rfl, htail⟩ | ⟨inner, hchar, htail⟩
    · obtain ⟨front, back, rfl, rfl, rfl⟩ := ih htail
      exact ⟨c :: front, back, encodeUtf8_cons, rfl, rfl⟩
    · rcases inner with _ | ⟨x, inner⟩
      · rw [List.append_nil] at hchar
        obtain ⟨front, back, hfront, rfl, rfl⟩ := ih (show encodeUtf8 value = [] ++ b :: rest from htail.symm)
        exact ⟨c :: front, back, by rw [encodeUtf8_cons, hfront, List.append_nil, hchar], rfl, rfl⟩
      · -- the byte is in the encoding of `c`, so it is all of it
        obtain ⟨rfl, rfl⟩ := List.cons.inj htail
        obtain ⟨hc, hone⟩ | ⟨-, -, hall⟩ := utf8EncodeChar_cases c
        · rw [hone, List.singleton_eq_append_iff] at hchar
          obtain ⟨rfl, hcons⟩ | ⟨-, hnil⟩ := hchar
          · obtain ⟨rfl, rfl⟩ := List.cons.inj hcons
            refine ⟨[], value, rfl, rfl, ?_⟩
            rw [UInt8.toNat_ofNat_of_lt' (by omega : c.toNat < 256), Char.ofNat_toNat]
            rfl
          · exact nomatch hnil
        · have hmem : b ∈ String.utf8EncodeChar c := by
            rw [hchar]
            exact List.mem_append_right _ List.mem_cons_self
          exact absurd (hall b hmem) (UInt8.not_le.2 hb)

/-! ### The order of the bytes -/

/-- Two byte strings are ordered by their first bytes, or behind them when these are the same. -/
theorem compare_byte {n m : Nat} {x y : Bytes} (hnm : n ≤ m) (hm : m < 256)
    (hbehind : n = m → compare x y = .lt) :
    compare (UInt8.ofNat n :: x) (UInt8.ofNat m :: y) = .lt := by
  rw [List.compare_cons_cons]
  rcases Nat.lt_or_eq_of_le hnm with h | rfl
  · have hlt : UInt8.ofNat n < UInt8.ofNat m := by
      rw [UInt8.lt_iff_toNat_lt, UInt8.toNat_ofNat_of_lt' (h.trans hm), UInt8.toNat_ofNat_of_lt' hm]
      exact h
    rw [Std.compare_eq_lt.2 hlt]
    rfl
  · rw [Std.ReflOrd.compare_self, hbehind rfl]
    rfl

/-- A smaller character has smaller bytes, whatever follows. -/
theorem compare_utf8EncodeChar_append (h : c < d) (x y : Bytes) :
    compare (String.utf8EncodeChar c ++ x) (String.utf8EncodeChar d ++ y) = .lt := by
  have hlt : c.val.toNat < d.val.toNat := h
  have hvalid : d.val.toNat < 1114112 := d.valid.elim (fun h ↦ by omega) fun h ↦ h.2
  unfold String.utf8EncodeChar
  simp only
  split
  · -- one byte, which is below the first byte of a longer encoding
    split
    · exact compare_byte (by omega) (by omega) fun h ↦ absurd h (by omega)
    split
    · exact compare_byte (by omega) (by omega) fun h ↦ absurd h (by omega)
    split <;> exact compare_byte (by omega) (by omega) fun h ↦ absurd h (by omega)
  rw [if_neg (by omega : ¬d.val.toNat ≤ 0x7f)]
  split
  · split
    · exact compare_byte (by omega) (by omega) fun h ↦
        compare_byte (by omega) (by omega) fun h ↦ absurd h (by omega)
    split <;> exact compare_byte (by omega) (by omega) fun h ↦ absurd h (by omega)
  rw [if_neg (by omega : ¬d.val.toNat ≤ 0x7ff)]
  split
  · split
    · exact compare_byte (by omega) (by omega) fun h ↦ compare_byte (by omega) (by omega) fun h ↦
        compare_byte (by omega) (by omega) fun h ↦ absurd h (by omega)
    · exact compare_byte (by omega) (by omega) fun h ↦ absurd h (by omega)
  rw [if_neg (by omega : ¬d.val.toNat ≤ 0xffff)]
  exact compare_byte (by omega) (by omega) fun h ↦ compare_byte (by omega) (by omega) fun h ↦
    compare_byte (by omega) (by omega) fun h ↦
      compare_byte (by omega) (by omega) fun h ↦ absurd h (by omega)

theorem compareChar_of_lt (h : c < d) : compare c d = .lt :=
  if_pos h

/-- Every character has a byte. -/
theorem utf8EncodeChar_ne_nil (c : Char) : String.utf8EncodeChar c ≠ [] := by
  obtain ⟨-, h⟩ | ⟨-, h, -⟩ := utf8EncodeChar_cases c
  · rw [h]
    exact List.cons_ne_nil _ _
  · exact h

/-- A common front does not decide. -/
theorem compare_append_left (x y z : Bytes) : compare (x ++ y) (x ++ z) = compare y z := by
  induction x with
  | nil => rfl
  | cons b x ih =>
    rw [List.cons_append, List.cons_append, List.compare_cons_cons, ih, Std.ReflOrd.compare_self]
    rfl

/-- Texts are ordered like their bytes. -/
theorem compare_encodeUtf8 (value value' : List Char) :
    compare (encodeUtf8 value) (encodeUtf8 value') = compare value value' := by
  induction value generalizing value' with
  | nil =>
    cases value' with
    | nil => rfl
    | cons d value' =>
      obtain ⟨b, bytes, hcons⟩ := List.exists_cons_of_ne_nil (utf8EncodeChar_ne_nil d)
      rw [encodeUtf8_cons, hcons]
      rfl
  | cons c value ih =>
    cases value' with
    | nil =>
      obtain ⟨b, bytes, hcons⟩ := List.exists_cons_of_ne_nil (utf8EncodeChar_ne_nil c)
      rw [encodeUtf8_cons, hcons]
      rfl
    | cons d value' =>
      rw [encodeUtf8_cons, encodeUtf8_cons, List.compare_cons_cons]
      rcases Nat.lt_trichotomy c.val.toNat d.val.toNat with h | h | h
      · rw [compare_utf8EncodeChar_append h, compareChar_of_lt h]
        rfl
      · obtain rfl : c = d := Char.ext (UInt32.toNat_inj.1 h)
        rw [compare_append_left, ih, Std.ReflOrd.compare_self]
        rfl
      · refine (Std.OrientedOrd.eq_swap).trans ?_
        rw [compare_utf8EncodeChar_append h,
          (Std.OrientedOrd.eq_swap : compare c d = (compare d c).swap), compareChar_of_lt h]
        rfl

/-- Texts are told apart by their bytes. -/
theorem encodeUtf8_injective : Function.Injective encodeUtf8 := by
  intro value value' h
  have heq := compare_encodeUtf8 value value'
  rw [h, Std.ReflOrd.compare_self] at heq
  exact Std.LawfulEqOrd.eq_of_compare heq.symm

end SkibidiQL
