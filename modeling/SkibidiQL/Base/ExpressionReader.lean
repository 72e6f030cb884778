import Mathlib.Data.List.Basic
import Mathlib.Algebra.Order.Group.Nat

/-!
# Readers of expressions

A reader takes what it reads off the front of a state. For a language with operators there is one reader for each
grade of precedence, made from the reader of the next grade (`Grade.reader`). The recursion into parentheses takes
fuel, so that a reader is a family; it yields something when it does with fuel enough (`Yields`).
-/

namespace SkibidiQL

/-- A reader: what it reads, and the state behind it. -/
abbrev Reader (σ ε α : Type) := σ → Except ε (α × σ)

variable {σ ε α : Type}

/-- The reader reads this from one state to the other, whenever it has fuel enough. -/
def Yields (read : ℕ → Reader σ ε α) (s : σ) (a : α) (t : σ) : Prop :=
  ∃ N, ∀ n ≥ N, read n s = .ok (a, t)

theorem Yields.of_eq {read : ℕ → Reader σ ε α} {s t : σ} {a : α} (h : ∀ n, read n s = .ok (a, t)) : Yields read s a t :=
  ⟨0, fun n _ ↦ h n⟩

/-- One reader goes on behind another. -/
theorem Yields.bind {β : Type} {first : ℕ → Reader σ ε α} {read : ℕ → Reader σ ε β}
    {second : ℕ → α → Reader σ ε β} {s t u : σ} {a : α} {b : β} (h : Yields first s a t)
    (h' : Yields (fun n ↦ second n a) t b u)
    (hread : ∀ n, read n s = (do let (a, t) ← first n s; second n a t)) : Yields read s b u := by
  obtain ⟨N, hN⟩ := h
  obtain ⟨M, hM⟩ := h'
  refine ⟨max N M, fun n hn ↦ ?_⟩
  rw [hread, hN n (Nat.le_trans (Nat.le_max_left _ _) hn)]
  exact hM n (Nat.le_trans (Nat.le_max_right _ _) hn)

/-- A reader that calls another with less fuel. -/
theorem Yields.succ {read inner : ℕ → Reader σ ε α} {s t : σ} {a : α} (h : Yields inner s a t)
    (hread : ∀ n, read (n + 1) s = inner n s) : Yields read s a t := by
  obtain ⟨N, hN⟩ := h
  refine ⟨N + 1, fun n hn ↦ ?_⟩
  obtain ⟨m, rfl⟩ : ∃ m, n = m + 1 := ⟨n - 1, by omega⟩
  rw [hread]
  exact hN m (Nat.le_of_succ_le_succ hn)

/-! ### Grades of precedence -/

/-- An operator at the front of a state: how it combines its operands, and the state behind it. -/
abbrev BinaryAt (σ α : Type) := σ → Option ((α → α → α) × σ)

/-- A prefix operator at the front of a state. -/
abbrev PrefixAt (σ α : Type) := σ → Option ((α → α) × σ)

/-- A loop over the operators of a grade: each is applied to what was read before it and the operand behind it. -/
def leftLoop (operator : BinaryAt σ α) (operand : Reader σ ε α) (exhausted : ε) : ℕ → α → Reader σ ε α
  | 0, _, _ => .error exhausted
  | rounds + 1, left, s =>
    match operator s with
    | none => .ok (left, s)
    | some (combine, s) => do
      let (right, s) ← operand s
      leftLoop operator operand exhausted rounds (combine left right) s

/-- Operands with the operators of a grade between them, grouped to the left. -/
def leftChain (operator : BinaryAt σ α) (operand : Reader σ ε α) (exhausted : ε) (fuel : ℕ) : Reader σ ε α := fun s ↦ do
  let (left, s) ← operand s
  leftLoop operator operand exhausted fuel left s

/-- One operand, or two with an operator between them. -/
def onceOperator (operator : BinaryAt σ α) (operand : Reader σ ε α) : Reader σ ε α := fun s ↦ do
  let (left, s) ← operand s
  match operator s with
  | none => .ok (left, s)
  | some (combine, s) => do
    let (right, s) ← operand s
    .ok (combine left right, s)

/-- An operand behind any number of prefix operators. -/
def prefixed (operator : PrefixAt σ α) (operand : Reader σ ε α) (exhausted : ε) : ℕ → Reader σ ε α
  | 0, _ => .error exhausted
  | fuel + 1, s =>
    match operator s with
    | none => operand s
    | some (apply, s) => do
      let (a, s) ← prefixed operator operand exhausted fuel s
      .ok (apply a, s)

/-- A grade of precedence. -/
inductive Grade (σ α : Type) where
  | left (operator : BinaryAt σ α)
  | once (operator : BinaryAt σ α)
  | before (operator : PrefixAt σ α)

/-- The reader of a grade, from the reader of the next. -/
def Grade.reader (exhausted : ε) (fuel : ℕ) (operand : Reader σ ε α) : Grade σ α → Reader σ ε α
  | left operator => leftChain operator operand exhausted fuel
  | once operator => onceOperator operator operand
  | before operator => prefixed operator operand exhausted fuel

/-- The readers of a table of grades, the loosest grade first, over the reader of what has no operator. -/
def readGrades (exhausted : ε) (primary : ℕ → Reader σ ε α) : List (Grade σ α) → ℕ → Reader σ ε α
  | [], fuel => primary fuel
  | grade :: grades, fuel => grade.reader exhausted fuel (readGrades exhausted primary grades fuel)

/-! ### What a grade reads -/

/-- No operator of the grade at the front of the state goes on with an expression. -/
def Grade.Ends (t : σ) : Grade σ α → Prop
  | left operator | once operator => operator t = none
  | before _ => True

/-- What a grade reads, as far as the operators at the end are left out that would go on with it. -/
inductive GradeYields (operand : ℕ → Reader σ ε α) : Grade σ α → σ → α → σ → Prop
  | operand {operator s a t} : Yields operand s a t → GradeYields operand (.left operator) s a t
  | combine {operator : BinaryAt σ α} {s l t f u r v} : GradeYields operand (.left operator) s l t →
      operator t = some (f, u) → Yields operand u r v → GradeYields operand (.left operator) s (f l r) v
  | single {operator : BinaryAt σ α} {s a t} : Yields operand s a t → operator t = none →
      GradeYields operand (.once operator) s a t
  | pair {operator : BinaryAt σ α} {s l t f u r v} : Yields operand s l t → operator t = some (f, u) →
      Yields operand u r v → GradeYields operand (.once operator) s (f l r) v
  | bare {operator : PrefixAt σ α} {s a t} : operator s = none → Yields operand s a t →
      GradeYields operand (.before operator) s a t
  | apply {operator : PrefixAt σ α} {s f u a t} : operator s = some (f, u) →
      GradeYields operand (.before operator) u a t → GradeYields operand (.before operator) s (f a) t

variable {operand : ℕ → Reader σ ε α} {exhausted : ε} {s t : σ} {a : α}

/-- What a loop has read, it goes on from. -/
theorem GradeYields.leftChain_eq {operator : BinaryAt σ α} (h : GradeYields operand (.left operator) s a t)
    (exhausted : ε) : ∃ N k, ∀ n ≥ N, ∀ rounds, leftChain operator (operand n) exhausted (rounds + k) s =
      leftLoop operator (operand n) exhausted rounds a t := by
  generalize hgrade : Grade.left operator = grade at h
  induction h with
  | operand hread =>
    cases hgrade
    obtain ⟨N, hN⟩ := hread
    refine ⟨N, 0, fun n hn rounds ↦ ?_⟩
    rw [leftChain, hN n hn]
    rfl
  | combine _ hoperator hright ih =>
    cases hgrade
    obtain ⟨N, k, hleft⟩ := ih rfl
    obtain ⟨M, hM⟩ := hright
    refine ⟨max N M, k + 1, fun n hn rounds ↦ ?_⟩
    rw [← Nat.add_assoc, Nat.add_right_comm, hleft n (Nat.le_trans (Nat.le_max_left _ _) hn), leftLoop, hoperator]
    show (operand n _ >>= _) = _
    rw [hM n (Nat.le_trans (Nat.le_max_right _ _) hn)]
    rfl
  | single | pair | bare | apply => cases hgrade

/-- A chain of prefixes is read to its end with enough fuel. -/
theorem GradeYields.prefixed_eq {operator : PrefixAt σ α} (h : GradeYields operand (.before operator) s a t)
    (exhausted : ε) : ∃ N k, ∀ n ≥ N, ∀ depth, prefixed operator (operand n) exhausted (depth + k + 1) s =
      .ok (a, t) := by
  generalize hgrade : Grade.before operator = grade at h
  induction h with
  | bare hoperator hread =>
    cases hgrade
    obtain ⟨N, hN⟩ := hread
    refine ⟨N, 0, fun n hn depth ↦ ?_⟩
    rw [prefixed, hoperator]
    exact hN n hn
  | apply hoperator _ ih =>
    cases hgrade
    obtain ⟨N, k, hrest⟩ := ih rfl
    refine ⟨N, k + 1, fun n hn depth ↦ ?_⟩
    rw [prefixed, hoperator]
    show (prefixed operator (operand n) exhausted (depth + k + 1) _ >>= _) = _
    rw [hrest n hn]
    rfl
  | operand | combine | single | pair => cases hgrade

/-- The reader of a grade reads what the grade does, when no operator goes on with it. -/
theorem GradeYields.reads {grade : Grade σ α} (h : GradeYields operand grade s a t) (hends : grade.Ends t) :
    Yields (fun n ↦ grade.reader exhausted n (operand n)) s a t := by
  cases grade with
  -- A chain of `k` operators takes `k` more rounds than its operands, and one to see that it ends.
  | left operator =>
    obtain ⟨N, k, hchain⟩ := h.leftChain_eq exhausted
    refine ⟨N + k + 1, fun n hn ↦ ?_⟩
    obtain ⟨m, rfl⟩ : ∃ m, n = m + 1 + k := ⟨n - k - 1, by omega⟩
    show leftChain operator (operand (m + 1 + k)) exhausted (m + 1 + k) s = _
    rw [hchain (m + 1 + k) (by omega) (m + 1), leftLoop, show operator t = none from hends]
  | once operator =>
    cases h with
    | single hread hoperator =>
      obtain ⟨N, hN⟩ := hread
      refine ⟨N, fun n hn ↦ ?_⟩
      show onceOperator operator (operand n) s = _
      rw [onceOperator, hN n hn]
      show (match operator t with | none => _ | some (f, s) => _) = _
      rw [hoperator]
    | pair hleft hoperator hright =>
      obtain ⟨N, hN⟩ := hleft
      obtain ⟨M, hM⟩ := hright
      refine ⟨max N M, fun n hn ↦ ?_⟩
      show onceOperator operator (operand n) s = _
      rw [onceOperator, hN n (Nat.le_trans (Nat.le_max_left _ _) hn)]
      show (match operator _ with | none => _ | some (f, s) => _) = _
      rw [hoperator]
      show (operand n _ >>= _) = _
      rw [hM n (Nat.le_trans (Nat.le_max_right _ _) hn)]
      rfl
  | before operator =>
    obtain ⟨N, k, hprefixed⟩ := h.prefixed_eq exhausted
    refine ⟨N + k + 1, fun n hn ↦ ?_⟩
    obtain ⟨m, rfl⟩ : ∃ m, n = m + k + 1 := ⟨n - k - 1, by omega⟩
    exact hprefixed (m + k + 1) (by omega) m

/-- What the next grade reads, a grade reads alone. -/
def Grade.Bare (s t : σ) : Grade σ α → Prop
  | left _ => True
  | once operator => operator t = none
  | before operator => operator s = none

/-- An operand without operators is read at the grade. -/
theorem Yields.grade {grade : Grade σ α} (h : Yields operand s a t) (hbare : grade.Bare s t) :
    GradeYields operand grade s a t := by
  cases grade with
  | left operator => exact .operand h
  | once operator => exact .single h hbare
  | before operator => exact .bare hbare h

/-- What is read at a tighter grade is read at a looser one, when none of the grades from there on has an operator
to read. -/
theorem Yields.lower {primary : ℕ → Reader σ ε α} {table : List (Grade σ α)} {c p : ℕ} (hcp : c ≤ p)
    (h : Yields (readGrades exhausted primary (table.drop p)) s a t)
    (hgrades : ∀ i, c ≤ i → i < p → ∀ grade, table[i]? = some grade → grade.Bare s t ∧ grade.Ends t) :
    Yields (readGrades exhausted primary (table.drop c)) s a t := by
  induction p, hcp using Nat.le_induction with
  | base => exact h
  | succ p hcp ih =>
    refine ih ?_ fun i hi hip ↦ hgrades i hi (Nat.lt_succ_of_lt hip)
    rcases Nat.lt_or_ge p table.length with hp | hp
    · obtain ⟨hbare, hends⟩ := hgrades p hcp (Nat.lt_succ_self p) table[p] (List.getElem?_eq_getElem hp)
      rw [List.drop_eq_getElem_cons hp]
      exact (h.grade hbare).reads hends
    · rwa [List.drop_eq_nil_of_le (Nat.le_succ_of_le hp), ← List.drop_eq_nil_of_le hp] at h

/-! ### Lists -/

/-- A loop over the separators of a list: each has an element behind it. -/
def listLoop (separator : σ → Option σ) (element : Reader σ ε α) (exhausted : ε) : ℕ → List α → Reader σ ε (List α)
  | 0, _, _ => .error exhausted
  | rounds + 1, before, s =>
    match separator s with
    | none => .ok (before, s)
    | some s => do
      let (a, s) ← element s
      listLoop separator element exhausted rounds (before ++ [a]) s

/-- Elements with separators between them, one at least. -/
def separatedList (separator : σ → Option σ) (element : Reader σ ε α) (exhausted : ε) (fuel : ℕ) :
    Reader σ ε (List α) := fun s ↦ do
  let (a, s) ← element s
  listLoop separator element exhausted fuel [a] s

/-- What a list reads, as far as the separators at the end are left out that would go on with it. -/
inductive ListYields (separator : σ → Option σ) (element : ℕ → Reader σ ε α) : σ → List α → σ → Prop
  | single {s t : σ} {a : α} : Yields element s a t → ListYields separator element s [a] t
  | snoc {s t u v : σ} {as : List α} {a : α} : ListYields separator element s as t → separator t = some u → Yields element u a v →
      ListYields separator element s (as ++ [a]) v

variable {separator : σ → Option σ} {element : ℕ → Reader σ ε α} {elements : List α}

/-- A list is read round by round with enough fuel. -/
theorem ListYields.separatedList_eq (h : ListYields separator element s elements t) (exhausted : ε) :
    ∃ N k, ∀ n ≥ N, ∀ rounds, separatedList separator (element n) exhausted (rounds + k) s =
      listLoop separator (element n) exhausted rounds elements t := by
  induction h with
  | single hread =>
    obtain ⟨N, hN⟩ := hread
    refine ⟨N, 0, fun n hn rounds ↦ ?_⟩
    rw [separatedList, hN n hn]
    rfl
  | snoc _ hseparator hread ih =>
    obtain ⟨N, k, hbefore⟩ := ih
    obtain ⟨M, hM⟩ := hread
    refine ⟨max N M, k + 1, fun n hn rounds ↦ ?_⟩
    rw [← Nat.add_assoc, Nat.add_right_comm, hbefore n (Nat.le_trans (Nat.le_max_left _ _) hn), listLoop, hseparator]
    show (element n _ >>= _) = _
    rw [hM n (Nat.le_trans (Nat.le_max_right _ _) hn)]
    rfl

/-- A list is read to its end where no separator follows. -/
theorem ListYields.reads (h : ListYields separator element s elements t) (hend : separator t = none) :
    Yields (fun n ↦ separatedList separator (element n) exhausted n) s elements t := by
  obtain ⟨N, k, hlist⟩ := h.separatedList_eq exhausted
  refine ⟨N + k + 1, fun n hn ↦ ?_⟩
  obtain ⟨m, rfl⟩ : ∃ m, n = m + 1 + k := ⟨n - k - 1, by omega⟩
  show separatedList separator (element (m + 1 + k)) exhausted (m + 1 + k) s = _
  rw [hlist (m + 1 + k) (by omega) (m + 1), listLoop, hend]

/-! ### What is read at all -/

/-- The relation holds of whatever the reader reads. -/
def Ensures (read : Reader σ ε α) (R : σ → α → σ → Prop) : Prop :=
  ∀ s a t, read s = .ok (a, t) → R s a t

/-- The relation goes on behind an operator of the grade. -/
def Grade.Extends (R : σ → α → σ → Prop) : Grade σ α → Prop
  | left operator | once operator => ∀ s l t f u r v, R s l t → operator t = some (f, u) → R u r v → R s (f l r) v
  | before operator => ∀ s f u a t, operator s = some (f, u) → R u a t → R s (f a) t

section Ensures

variable {R : σ → α → σ → Prop} {element : Reader σ ε α}

/-- A chain of left operators keeps what the operands keep. -/
theorem Ensures.leftChain {operator : BinaryAt σ α} (h : Ensures element R) (hgrade : (Grade.left operator).Extends R)
    (fuel : ℕ) : Ensures (leftChain operator element exhausted fuel) R := by
  have hloop (s : σ) : ∀ rounds l t, R s l t → ∀ a u,
      leftLoop operator element exhausted rounds l t = .ok (a, u) → R s a u := by
    intro rounds
    induction rounds with
    | zero => exact fun _ _ _ _ _ hread ↦ nomatch hread
    | succ rounds ih =>
      intro l t hl a u hread
      rw [leftLoop] at hread
      split at hread
      · cases hread
        exact hl
      · rename_i f v hoperator
        cases hright : element v with
        | error => rw [hright] at hread; cases hread
        | ok right =>
          rw [hright] at hread
          exact ih _ _ (hgrade s l t f v right.1 right.2 hl hoperator (h v _ _ hright)) a u hread
  intro s a t hread
  rw [SkibidiQL.leftChain] at hread
  cases hleft : element s with
  | error => rw [hleft] at hread; cases hread
  | ok left =>
    rw [hleft] at hread
    exact hloop s fuel left.1 left.2 (h s _ _ hleft) a t hread

/-- A single operator keeps what its operands keep. -/
theorem Ensures.onceOperator {operator : BinaryAt σ α} (h : Ensures element R)
    (hgrade : (Grade.once operator).Extends R) : Ensures (onceOperator operator element) R := by
  intro s a t hread
  rw [SkibidiQL.onceOperator] at hread
  cases hleft : element s with
  | error => rw [hleft] at hread; cases hread
  | ok left =>
    rw [hleft] at hread
    obtain ⟨l, u⟩ := left
    change (match operator u with | none => _ | some (f, s) => _) = _ at hread
    split at hread
    · cases hread
      exact h s _ _ hleft
    · rename_i f v hoperator
      cases hright : element v with
      | error => rw [hright] at hread; cases hread
      | ok right =>
        rw [hright] at hread
        cases hread
        exact hgrade s l u f v right.1 right.2 (h s _ _ hleft) hoperator (h v _ _ hright)

/-- A chain of prefixes keeps what its operand keeps. -/
theorem Ensures.prefixed {operator : PrefixAt σ α} (h : Ensures element R) (hgrade : (Grade.before operator).Extends R)
    (fuel : ℕ) : Ensures (prefixed operator element exhausted fuel) R := by
  induction fuel with
  | zero => exact fun _ _ _ hread ↦ nomatch hread
  | succ fuel ih =>
    intro s a t hread
    rw [SkibidiQL.prefixed] at hread
    split at hread
    · exact h s a t hread
    · rename_i f u hoperator
      cases hrest : SkibidiQL.prefixed operator element exhausted fuel u with
      | error => rw [hrest] at hread; cases hread
      | ok rest =>
        rw [hrest] at hread
        cases hread
        exact hgrade s f u rest.1 rest.2 hoperator (ih u _ _ hrest)

/-- What holds of all that has no operator and goes on behind every operator holds of all that is read. -/
theorem Ensures.readGrades {primary : ℕ → Reader σ ε α} {table : List (Grade σ α)} (h : ∀ n, Ensures (primary n) R)
    (hgrades : ∀ grade ∈ table, grade.Extends R) (fuel : ℕ) : Ensures (readGrades exhausted primary table fuel) R := by
  induction table with
  | nil => exact h fuel
  | cons grade table ih =>
    have hnext := ih fun grade hmem ↦ hgrades grade (List.mem_cons_of_mem _ hmem)
    have hgrade := hgrades grade List.mem_cons_self
    cases grade with
    | left operator => exact hnext.leftChain hgrade fuel
    | once operator => exact hnext.onceOperator hgrade
    | before operator => exact hnext.prefixed hgrade fuel

/-- What holds of one element and goes on behind every separator holds of a list. -/
theorem Ensures.separatedList {Rs : σ → List α → σ → Prop} (h : Ensures element R)
    (hsingle : ∀ s a t, R s a t → Rs s [a] t)
    (hsnoc : ∀ s as t u a v, Rs s as t → separator t = some u → R u a v → Rs s (as ++ [a]) v) (fuel : ℕ) :
    ∀ s as t, separatedList separator element exhausted fuel s = .ok (as, t) → Rs s as t := by
  have hloop (s : σ) : ∀ rounds before t, Rs s before t → ∀ as u,
      listLoop separator element exhausted rounds before t = .ok (as, u) → Rs s as u := by
    intro rounds
    induction rounds with
    | zero => exact fun _ _ _ _ _ hread ↦ nomatch hread
    | succ rounds ih =>
      intro before t hbefore as u hread
      rw [listLoop] at hread
      split at hread
      · cases hread
        exact hbefore
      · rename_i v hseparator
        cases hnext : element v with
        | error => rw [hnext] at hread; cases hread
        | ok next =>
          rw [hnext] at hread
          exact ih _ _ (hsnoc s before t v next.1 next.2 hbefore hseparator (h v _ _ hnext)) as u hread
  intro s as t hread
  rw [SkibidiQL.separatedList] at hread
  cases hfirst : element s with
  | error => rw [hfirst] at hread; cases hread
  | ok first =>
    rw [hfirst] at hread
    exact hloop s fuel _ first.2 (hsingle s _ _ (h s _ _ hfirst)) as t hread

end Ensures

end SkibidiQL
