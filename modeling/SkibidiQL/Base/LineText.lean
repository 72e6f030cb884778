import SkibidiQL.Base.Utf8
import Mathlib.Data.List.TakeWhile

/-!
# Lines of a text

`splitlines` is the function of that name on Python strings: it breaks a text at ten characters, takes a
carriage return with a line feed behind it as one break, and lists no empty line behind the last break. A
text printed on a line of its own gives its lines, whatever follows (`splitlines_append`): a first line,
and later ones exactly if it has a break itself.
-/

namespace SkibidiQL

/-- The characters that end a line. -/
def isLineBreak (c : Char) : Bool :=
  c.toNat ∈ [10, 11, 12, 13, 28, 29, 30, 133, 8232, 8233]

/-- The lines of a text, with the line begun so far, and whether a carriage return has just ended one. -/
def linesFrom : Bool → List Char → List Char → List (List Char)
  | _, line, [] => if line.isEmpty then [] else [line]
  | afterReturn, line, c :: text =>
    if afterReturn && c == '\n' then linesFrom false line text
    else if isLineBreak c then line :: linesFrom (c == '\r') [] text
    else linesFrom false (line ++ [c]) text

/-- `str.splitlines`. -/
def splitlines (text : List Char) : List (List Char) :=
  linesFrom false [] text

/-- No character of the text ends a line. -/
def Unbroken (text : List Char) : Prop :=
  ∀ c ∈ text, isLineBreak c = false

instance (text : List Char) : Decidable (Unbroken text) :=
  List.decidableBAll _ text

/-- The text up to its first break. -/
def firstLine (text : List Char) : List Char :=
  text.takeWhile fun c ↦ !isLineBreak c

/-- The lines behind the first one, when the text is printed with a line feed behind it. -/
def laterLines (text : List Char) : List (List Char) :=
  (splitlines (text ++ ['\n'])).tail

variable {text text' line : List Char}

theorem unbroken_append : Unbroken (text ++ text') ↔ Unbroken text ∧ Unbroken text' :=
  List.forall_mem_append

/-! ### Texts on lines of their own -/

/-- A line feed ends the line before it, and the lines behind it are those of the rest. -/
theorem linesFrom_newline (rest : List Char) {afterReturn : Bool} (hline : afterReturn = true → line = []) :
    linesFrom afterReturn line (text ++ '\n' :: rest) =
      linesFrom afterReturn line (text ++ ['\n']) ++ splitlines rest := by
  induction text generalizing afterReturn line with
  | nil =>
    rcases afterReturn with _ | _
    · rfl
    · -- the line feed belongs to the carriage return before it
      obtain rfl := hline rfl
      rfl
  | cons c text ih =>
    simp only [List.cons_append, linesFrom]
    split
    · exact ih nofun
    · split
      · rw [ih fun _ ↦ rfl]
        rfl
      · exact ih nofun

theorem splitlines_append (text rest : List Char) :
    splitlines (text ++ '\n' :: rest) = splitlines (text ++ ['\n']) ++ splitlines rest :=
  linesFrom_newline rest nofun

/-- A text is split into its first line, which goes on the line begun before, and later ones. -/
theorem linesFrom_eq (text line : List Char) :
    linesFrom false line (text ++ ['\n']) = (line ++ firstLine text) :: laterLines text := by
  induction text generalizing line with
  | nil =>
    rw [firstLine, List.takeWhile_nil, List.append_nil]
    rfl
  | cons c text ih =>
    simp only [laterLines, splitlines, List.cons_append, linesFrom, Bool.false_and, Bool.false_eq_true,
      if_false]
    rcases hbreak : isLineBreak c with _ | _
    · rw [if_neg Bool.false_ne_true, if_neg Bool.false_ne_true, ih, ih, firstLine, firstLine,
        List.takeWhile_cons_of_pos (by rw [hbreak]; rfl), List.append_assoc]
      rfl
    · rw [if_pos rfl, if_pos rfl, firstLine, List.takeWhile_cons_of_neg (by rw [hbreak]; exact nofun),
        List.append_nil]
      rfl

/-- A text without breaks goes on with its line. -/
theorem linesFrom_unbroken (h : Unbroken text) (line rest : List Char) :
    linesFrom false line (text ++ rest) = linesFrom false (line ++ text) rest := by
  induction text generalizing line with
  | nil => rw [List.nil_append, List.append_nil]
  | cons c text ih =>
    obtain ⟨hc, htext⟩ := List.forall_mem_cons.1 h
    rw [List.cons_append, linesFrom, Bool.false_and, if_neg Bool.false_ne_true, hc,
      if_neg Bool.false_ne_true, ih htext, List.append_assoc, List.singleton_append]

/-- A line that begins with a text without breaks. -/
theorem splitlines_behind (h : Unbroken line) (text : List Char) :
    splitlines (line ++ text ++ ['\n']) = (line ++ firstLine text) :: laterLines text := by
  rw [List.append_assoc, splitlines, linesFrom_unbroken h, List.nil_append, linesFrom_eq]

/-- A text is its first line when it has no break. -/
theorem firstLine_eq_iff : firstLine text = text ↔ Unbroken text := by
  rw [firstLine, List.takeWhile_eq_self_iff]
  exact forall₂_congr fun c _ ↦ iff_of_eq (Bool.not_eq_true' _)

theorem laterLines_eq_nil (h : Unbroken text) : laterLines text = [] := by
  rw [laterLines, splitlines, linesFrom_unbroken h]
  rfl

end SkibidiQL
