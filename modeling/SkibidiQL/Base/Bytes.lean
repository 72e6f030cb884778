import Mathlib.Data.List.Basic
import Mathlib.Data.Nat.Digits.Defs

/-!
# Byte strings

A `std::string` is a list of bytes: no encoding is attached to it, and every byte value may occur.
The character-class functions are those of `<cctype>` in the "C" locale, which the engine never
leaves, so bytes above 127 belong to no class. `std::string::compare` is the `compare` of `List UInt8`,
lexicographic in the unsigned byte values.
-/

namespace SkibidiQL

/-- A `std::string` or a `std::vector<std::uint8_t>`. -/
abbrev Bytes := List UInt8

instance : LawfulBEq Bytes :=
  inferInstance

/-- The bytes of a string literal of the source. -/
def lit (s : String) : Bytes :=
  s.toList.map fun c ↦ UInt8.ofNat c.toNat

/-- What a `std::runtime_error` carries: its message. -/
abbrev Error := Bytes

namespace Bytes

/-! ### Character classes -/

/-- `std::isdigit`. -/
def isDigit (b : UInt8) : Bool :=
  48 ≤ b && b ≤ 57

/-- `std::isspace`: space, `\t`, `\n`, `\v`, `\f` and `\r`. -/
def isSpace (b : UInt8) : Bool :=
  b == 32 || (9 ≤ b && b ≤ 13)

/-- `std::isalnum`. -/
def isAlnum (b : UInt8) : Bool :=
  isDigit b || (65 ≤ b && b ≤ 90) || (97 ≤ b && b ≤ 122)

/-- `std::tolower`. -/
def toLower (b : UInt8) : UInt8 :=
  if 65 ≤ b && b ≤ 90 then b + 32 else b

/-- `std::toupper`. -/
def toUpper (b : UInt8) : UInt8 :=
  if 97 ≤ b && b ≤ 122 then b - 32 else b

/-! ### Searching -/

/-- Whether the text starts with the given bytes. -/
def startsWith : Bytes → Bytes → Bool
  | _, [] => true
  | [], _ :: _ => false
  | b :: text, n :: needle => b == n && startsWith text needle

/-- `std::string::find`: the least position at which `needle` occurs, `none` for `npos`. -/
def find (text needle : Bytes) : Option Nat :=
  if startsWith text needle then some 0
  else match text with
    | [] => none
    | _ :: rest => (find rest needle).map (· + 1)

/-- `text.find(needle) != npos`. -/
def contains (text needle : Bytes) : Bool :=
  (find text needle).isSome

/-! ### Numbers -/

/-- `std::to_string` of an unsigned number: its decimal digits, most significant first. -/
def ofNat (n : Nat) : Bytes :=
  if n = 0 then [48] else ((Nat.digits 10 n).map fun d ↦ UInt8.ofNat (48 + d)).reverse

/-- `std::to_string` of a signed number. -/
def ofInt : Int → Bytes
  | .ofNat n => ofNat n
  | .negSucc n => 45 :: ofNat (n + 1)

theorem isDigit_digit : ∀ d < 10, isDigit (UInt8.ofNat (48 + d)) := by
  decide

/-- A number is written in digits. -/
theorem isDigit_ofNat (n : Nat) : ∀ b ∈ ofNat n, isDigit b := by
  intro b hb
  unfold ofNat at hb
  split at hb
  · rw [List.mem_singleton.1 hb]
    rfl
  · obtain ⟨d, hd, rfl⟩ := List.mem_map.1 (List.mem_reverse.1 hb)
    exact isDigit_digit d (Nat.digits_lt_base (by omega) hd)

/-- A number has at least one digit. -/
theorem ofNat_ne_nil (n : Nat) : ofNat n ≠ [] := by
  unfold ofNat
  split
  · exact List.cons_ne_nil _ _
  · rename_i hn
    rw [ne_eq, List.reverse_eq_nil_iff, List.map_eq_nil_iff, Nat.digits_eq_nil_iff_eq_zero]
    exact hn

/-- `joinStrings`: the parts with the separator between them. -/
def joinStrings (separator : Bytes) : List Bytes → Bytes
  | [] => []
  | [part] => part
  | part :: parts => part ++ separator ++ joinStrings separator parts

end Bytes

end SkibidiQL
