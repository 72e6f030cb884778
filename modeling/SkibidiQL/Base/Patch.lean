import Mathlib.Data.List.TakeDrop
import Mathlib.Data.List.Basic

/-!
# Reading and overwriting parts of a list

`slice` reads a stretch of a list and `patch` overwrites one, as `memcpy` does from and to an array.
A patch never changes the length: what would stick out is cut off.
-/

namespace List

variable {α : Type*}

/-- The `size` elements from `offset` on. -/
def slice (l : List α) (offset size : Nat) : List α :=
  (l.drop offset).take size

/-- The list with `data` written over it from `offset` on. -/
def patch (l : List α) (offset : Nat) (data : List α) : List α :=
  l.take offset ++ data.take (l.length - offset) ++ l.drop (offset + data.length)

@[simp] theorem length_patch (l : List α) (offset : Nat) (data : List α) :
    (l.patch offset data).length = l.length := by
  simp only [patch, length_append, length_take, length_drop]
  omega

/-- A slice in bounds is as long as asked for. -/
theorem length_slice {l : List α} {offset size : Nat} (h : offset + size ≤ l.length) :
    (l.slice offset size).length = size := by
  rw [slice, length_take, length_drop]
  omega

theorem getElem?_slice (l : List α) (offset size i : Nat) :
    (l.slice offset size)[i]? = if i < size then l[offset + i]? else none := by
  rw [slice, getElem?_take, getElem?_drop]

/-- The elements of a patched list. -/
theorem getElem?_patch {l : List α} {offset : Nat} {data : List α}
    (h : offset + data.length ≤ l.length) (i : Nat) :
    (l.patch offset data)[i]? =
      if i < offset then l[i]? else if i < offset + data.length then data[i - offset]? else l[i]? := by
  have hdata : data.take (l.length - offset) = data := take_of_length_le (by omega)
  have hlength : (l.take offset).length = offset := by
    rw [length_take]
    omega
  rw [patch, hdata]
  split_ifs with hlow hmid
  · rw [getElem?_append_left (by rw [length_append, hlength]; omega),
      getElem?_append_left (by rw [hlength]; exact hlow), getElem?_take, if_pos hlow]
  · rw [getElem?_append_left (by rw [length_append, hlength]; omega),
      getElem?_append_right (by rw [hlength]; omega), hlength]
  · rw [getElem?_append_right (by rw [length_append, hlength]; omega), length_append, hlength,
      getElem?_drop]
    congr 1
    omega

/-- Reading back what was written. -/
theorem slice_patch_self {l : List α} {offset : Nat} {data : List α}
    (h : offset + data.length ≤ l.length) : (l.patch offset data).slice offset data.length = data := by
  apply ext_getElem?
  intro i
  rw [getElem?_slice, getElem?_patch h]
  by_cases hi : i < data.length
  · rw [if_pos hi, if_neg (by omega), if_pos (by omega)]
    congr 1
    omega
  · rw [if_neg hi, getElem?_eq_none (by omega)]

/-- Reading next to what was written. -/
theorem slice_patch_disjoint {l : List α} {offset : Nat} {data : List α} {start size : Nat}
    (h : offset + data.length ≤ l.length)
    (hdisjoint : start + size ≤ offset ∨ offset + data.length ≤ start) :
    (l.patch offset data).slice start size = l.slice start size := by
  apply ext_getElem?
  intro i
  rw [getElem?_slice, getElem?_slice]
  split_ifs with hi
  · rw [getElem?_patch h]
    split_ifs with hlow hmid
    · rfl
    · omega
    · rfl
  · rfl

/-- A slice of a slice. -/
theorem slice_slice {l : List α} {offset size start size' : Nat} (h : start + size' ≤ size) :
    (l.slice offset size).slice start size' = l.slice (offset + start) size' := by
  apply ext_getElem?
  intro i
  rw [getElem?_slice, getElem?_slice, getElem?_slice]
  by_cases hi : i < size'
  · rw [if_pos hi, if_pos hi, if_pos (by omega)]
    congr 1
    omega
  · rw [if_neg hi, if_neg hi]

end List
