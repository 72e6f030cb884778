import SkibidiQL.Base.ExceptRules
import SkibidiQL.Base.Patch

/-!
# Reading by position

A reader walks over data in memory with a position, and may read where there is no data. A parser takes what
is left of the data and cannot. A reader that follows a parser (`Follows`) reads no more than there is: it
succeeds where the parser does, at the position behind what the parser took, and throws what the parser throws.
-/

namespace SkibidiQL

/-- How a reader fails. -/
inductive ReadFailure (ε : Type) where
  /-- It throws. -/
  | thrown (error : ε)
  /-- It reads where there is no data. -/
  | outOfBounds
deriving DecidableEq

/-- Computations that move a position in data. -/
abbrev OffsetReader (ε : Type) := StateT Nat (Except (ReadFailure ε))

namespace OffsetReader

variable {ι ε α α' β β' : Type}

/-- Throwing. -/
def fail (error : ε) : OffsetReader ε α := fun _ ↦ .error (.thrown error)

/-- Throwing at some positions. -/
def check (bad : Nat → Bool) (error : ε) : OffsetReader ε Unit := fun offset ↦
  if bad offset then .error (.thrown error) else .ok ((), offset)

/-- The element at the position. -/
def next (data : List ι) : OffsetReader ε ι := fun offset ↦
  match data[offset]? with
  | some i => .ok (i, offset + 1)
  | none => .error .outOfBounds

/-- So many elements from the position on. -/
def nextSlice (data : List ι) (size : Nat) : OffsetReader ε (List ι) := fun offset ↦
  if offset + size ≤ data.length then .ok (data.slice offset size, offset + size)
  else .error .outOfBounds

/-- Moving on without reading. -/
def skip (size : Nat) : OffsetReader ε Unit :=
  modify (· + size)

/-- Taking the first element. -/
def takeNext (error : ε) : List ι → Except ε (ι × List ι)
  | [] => .error error
  | i :: rest => .ok (i, rest)

/-- Taking so many elements. -/
def takeSlice (error : ε) (size : Nat) (rest : List ι) : Except ε (List ι × List ι) :=
  if size > rest.length then .error error else .ok (rest.take size, rest.drop size)

/-- The reader does on the data what the parser does on what is left of it. -/
def Follows (data : List ι) (R : α → β → Prop) (reader : OffsetReader ε α)
    (parser : List ι → Except ε (β × List ι)) : Prop :=
  ∀ offset ≤ data.length, match parser (data.drop offset) with
    | .error error => reader offset = .error (.thrown error)
    | .ok (b, rest) => ∃ a, ∃ offset' ≤ data.length,
      reader offset = .ok (a, offset') ∧ rest = data.drop offset' ∧ R a b

variable {data : List ι} {R : α → β → Prop} {R' : α' → β' → Prop} {reader : OffsetReader ε α}
  {parser : List ι → Except ε (β × List ι)}

namespace Follows

/-- Where the parser fails the reader fails. -/
theorem error (h : Follows data R reader parser) {offset : Nat} (hoffset : offset ≤ data.length) {error : ε}
    (hparser : parser (data.drop offset) = .error error) : reader offset = .error (.thrown error) := by
  have hat := h offset hoffset
  rwa [hparser] at hat

/-- Where it returns the reader returns and stands behind it. -/
theorem ok (h : Follows data R reader parser) {offset : Nat} (hoffset : offset ≤ data.length) {b : β}
    {rest : List ι} (hparser : parser (data.drop offset) = .ok (b, rest)) : ∃ a, ∃ offset' ≤ data.length,
      reader offset = .ok (a, offset') ∧ rest = data.drop offset' ∧ R a b := by
  have hat := h offset hoffset
  rwa [hparser] at hat

theorem congr (h : Follows data R reader parser) {parser' : List ι → Except ε (β × List ι)}
    (hparser : ∀ rest, parser rest = parser' rest) : Follows data R reader parser' :=
  funext hparser ▸ h

/-- Following in one relation is following in a weaker one. -/
theorem mono (h : Follows data R reader parser) {S : α → β → Prop} (hRS : ∀ a b, R a b → S a b) :
    Follows data S reader parser := by
  intro offset hoffset
  rcases hparser : parser (data.drop offset) with e | ⟨b, rest⟩
  · exact h.error hoffset hparser
  · obtain ⟨a, offset', hoffset', hreader, hrest, hab⟩ := h.ok hoffset hparser
    exact ⟨a, offset', hoffset', hreader, hrest, hRS a b hab⟩

theorem pure {a : α} {b : β} (hab : R a b) :
    Follows data R (Pure.pure a : OffsetReader ε α) fun rest ↦ .ok (b, rest) :=
  fun offset hoffset ↦ ⟨a, offset, hoffset, rfl, rfl, hab⟩

theorem fail (error : ε) : Follows data R (OffsetReader.fail error) fun _ ↦ .error error :=
  fun _ _ ↦ rfl

/-- A reader and a parser that go on with what they have read. -/
theorem bind (h : Follows data R reader parser) {next : α → OffsetReader ε α'}
    (next' : β → List ι → Except ε (β' × List ι)) (hnext : ∀ a b, R a b → Follows data R' (next a) (next' b)) :
    Follows data R' (reader >>= next) fun rest ↦ parser rest >>= fun result ↦ next' result.1 result.2 := by
  intro offset hoffset
  dsimp only
  rcases hparser : parser (data.drop offset) with e | ⟨b, rest⟩
  · show (reader offset >>= fun result ↦ next result.1 result.2) = .error (.thrown e)
    rw [h.error hoffset hparser]
    rfl
  · obtain ⟨a, offset', hoffset', hreader, rfl, hab⟩ := h.ok hoffset hparser
    have hrun : (reader >>= next) offset = next a offset' := by
      show (reader offset >>= fun result ↦ next result.1 result.2) = _
      rw [hreader]
      rfl
    rw [hrun]
    exact hnext a b hab offset' hoffset'

/-- A check in front of a reader. -/
theorem check_bind {bad : Nat → Bool} {error : ε} {offset : Nat} :
    (check bad error >>= fun _ ↦ reader) offset =
      if bad offset then .error (.thrown error) else reader offset := by
  show (check bad error offset >>= fun result ↦ reader result.2) = _
  unfold check
  split <;> rfl

/-- Reading the next element, when it has been checked that there is one. -/
theorem checkedNext (error : ε) : Follows data (· = ·)
    (check (fun offset ↦ offset ≥ data.length) error >>= fun _ ↦ OffsetReader.next data)
    (takeNext error) := by
  intro offset hoffset
  rw [check_bind]
  rcases hdrop : data.drop offset with - | ⟨i, rest⟩
  · rw [List.drop_eq_nil_iff] at hdrop
    exact if_pos (decide_eq_true hdrop)
  · have hlt : offset < data.length := by
      have := congrArg List.length hdrop
      rw [List.length_drop, List.length_cons] at this
      omega
    have hget : data[offset]? = some i := by
      rw [← Nat.add_zero offset, ← List.getElem?_drop, hdrop, List.getElem?_cons_zero]
    have hrest : rest = data.drop (offset + 1) := by
      rw [← List.drop_drop, hdrop, List.drop_one, List.tail_cons]
    refine ⟨i, offset + 1, hlt, ?_, hrest, rfl⟩
    rw [if_neg (by simpa using hlt), OffsetReader.next, hget]

/-- Reading a stretch, when it has been checked that it is there. -/
theorem checkedSlice (error : ε) (size : Nat) : Follows data (· = ·)
    (check (fun offset ↦ offset + size > data.length) error >>= fun _ ↦ OffsetReader.nextSlice data size)
    (takeSlice error size) := by
  intro offset hoffset
  rw [check_bind]
  unfold takeSlice
  rw [List.length_drop]
  rcases Nat.lt_or_ge data.length (offset + size) with hlong | hfits
  · rw [if_pos (by omega : size > data.length - offset)]
    exact if_pos (decide_eq_true hlong)
  · rw [if_neg (by omega : ¬size > data.length - offset)]
    refine ⟨data.slice offset size, offset + size, hfits, ?_, List.drop_drop .., rfl⟩
    rw [if_neg (by simpa using hfits), nextSlice, if_pos hfits]

/-- Skipping a stretch, when it has been checked that it is there. -/
theorem checkedSkip (error : ε) (size : Nat) : Follows data (fun _ _ ↦ True)
    (check (fun offset ↦ offset + size > data.length) error >>= fun _ ↦ OffsetReader.skip size)
    (takeSlice error size) := by
  intro offset hoffset
  rw [check_bind]
  unfold takeSlice
  rw [List.length_drop]
  rcases Nat.lt_or_ge data.length (offset + size) with hlong | hfits
  · rw [if_pos (by omega : size > data.length - offset)]
    exact if_pos (decide_eq_true hlong)
  · rw [if_neg (by omega : ¬size > data.length - offset)]
    refine ⟨(), offset + size, hfits, ?_, List.drop_drop .., trivial⟩
    rw [if_neg (by simpa using hfits)]
    rfl

end Follows

end OffsetReader

end SkibidiQL
