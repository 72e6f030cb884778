import Mathlib.Tactic.Ring
import Mathlib.Data.Nat.ModEq

/-!
# Little-endian numbers

A number of a fixed width as its bytes, least significant byte first, and back: what `memcpy` of an
unsigned integer does on the machines the files are written on.
-/

namespace LittleEndian

/-- The `width` bytes of `n`; higher bytes are cut off. -/
def encode : Nat → Nat → List UInt8
  | 0, _ => []
  | width + 1, n => UInt8.ofNat n :: encode width (n / 256)

/-- The number with these bytes. -/
def decode : List UInt8 → Nat
  | [] => 0
  | b :: bytes => b.toNat + 256 * decode bytes

@[simp] theorem length_encode (width n : Nat) : (encode width n).length = width := by
  induction width generalizing n with
  | zero => rfl
  | succ width ih => rw [encode, List.length_cons, ih]

/-- Bytes decode to less than their width allows. -/
theorem decode_lt (bytes : List UInt8) : decode bytes < 256 ^ bytes.length := by
  induction bytes with
  | nil => exact Nat.one_pos
  | cons b bytes ih =>
    have hb : b.toNat < 256 := b.toNat_lt
    rw [decode, List.length_cons, pow_succ]
    omega

/-- What is encoded is decoded up to the width. -/
theorem decode_encode (width n : Nat) : decode (encode width n) = n % 256 ^ width := by
  induction width generalizing n with
  | zero => rw [pow_zero, Nat.mod_one]; rfl
  | succ width ih =>
    have hbyte : (UInt8.ofNat n).toNat = n % 256 := UInt8.toNat_ofNat'
    rw [encode, decode, ih, hbyte, pow_succ, Nat.mul_comm (256 ^ width), Nat.mod_mul]

theorem decode_encode_of_lt {width n : Nat} (h : n < 256 ^ width) :
    decode (encode width n) = n := by
  rw [decode_encode, Nat.mod_eq_of_lt h]

end LittleEndian
