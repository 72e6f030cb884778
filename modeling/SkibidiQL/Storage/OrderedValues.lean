import SkibidiQL.Storage.ValueOrder

/-!
# Where the order of values is one order

Sorting, minimum and maximum, the index and the hash tables all rely on `compare`, `operator==` and `hash`
being one order with its equality. A set of values without NaN has such an order (`OrderedOn`) exactly when
no text comes between a number and a boolean that does not exceed it: booleans are numbers to numbers, and
come behind the texts to texts.
-/

namespace SkibidiQL

/-! ### Hashes -/

/-- `std::hash` on doubles and strings. -/
structure StdHash where
  double : Float → UInt64
  string : Bytes → UInt64
  /-- Equal doubles have equal hashes. -/
  double_congr : ∀ {x y : Float}, x == y → double x = double y

/-- `kGoldenRatio64`. -/
def goldenRatio64 : UInt64 := 0x9e3779b97f4a7c15

/-- `skibidi::hash::combine`. -/
def combineHash (seed value : UInt64) : UInt64 :=
  seed ^^^ (value + goldenRatio64 + (seed <<< 6) + (seed >>> 2))

/-- `Value::hash`. -/
def Value.hash (std : StdHash) (value : Value) : UInt64 :=
  let seed := UInt64.ofNat value.type.toNat
  if value.isNumeric then combineHash (UInt64.ofNat ValueType.real.toNat) (std.double value.toFloat)
  else match value with
    | .text s => combineHash seed (std.string s)
    | .blob bytes => bytes.foldl (fun seed byte ↦ combineHash seed byte.toUInt64) seed
    | _ => seed

/-! ### Comparisons by groups -/

section Groups

variable {α : Type} {cmp : α → α → Ordering} {group : α → Nat} {D : Set α}

/-- A comparison that goes by groups first is transitive when it is inside each group. -/
theorem ne_gt_trans_of_group (group : α → Nat)
    (hapart : ∀ a ∈ D, ∀ b ∈ D, group a ≠ group b → cmp a b = compare (group a) (group b))
    (hinside : ∀ a ∈ D, ∀ b ∈ D, ∀ c ∈ D, group a = group b → group b = group c →
      cmp a b ≠ .gt → cmp b c ≠ .gt → cmp a c ≠ .gt) :
    ∀ a ∈ D, ∀ b ∈ D, ∀ c ∈ D, cmp a b ≠ .gt → cmp b c ≠ .gt → cmp a c ≠ .gt := by
  intro a ha b hb c hc hab hbc
  have hle : ∀ x ∈ D, ∀ y ∈ D, cmp x y ≠ .gt → group x ≤ group y := by
    intro x hx y hy h
    rcases eq_or_ne (group x) (group y) with heq | hne
    · exact heq.le
    · exact compare_le_iff_le.1 (hapart x hx y hy hne ▸ h)
  have hle₁ := hle a ha b hb hab
  have hle₂ := hle b hb c hc hbc
  rcases eq_or_ne (group a) (group c) with heq | hne
  · exact hinside a ha b hb c hc (by omega) (by omega) hab hbc
  · rw [hapart a ha c hc hne]
    exact compare_le_iff_le.2 (by omega)

end Groups

namespace Value

variable {a b c : Value}

/-- Integers and reals. -/
def IsNumber (value : Value) : Prop :=
  value.type = .integer ∨ value.type = .real

/-- Numbers are the integers and doubles, and Booleans count as such. -/
theorem isNumeric_iff : a.isNumeric ↔ a.IsNumber ∨ a.type = .boolean := by
  rw [isNumeric, Bool.or_eq_true, Bool.or_eq_true, beq_iff_eq, beq_iff_eq, beq_iff_eq]
  rfl

/-- The order of doubles is transitive, NaN apart. -/
theorem compareFloat_ne_gt_trans {x y z : Float} (hx : x.isNaN = false) (hy : y.isNaN = false)
    (hz : z.isNaN = false) (hxy : compareFloat x y ≠ .gt) (hyz : compareFloat y z ≠ .gt) :
    compareFloat x z ≠ .gt := by
  rw [compareFloat_eq hx hy, compare_le_iff_le] at hxy
  rw [compareFloat_eq hy hz, compare_le_iff_le] at hyz
  rw [compareFloat_eq hx hz, compare_le_iff_le]
  exact hxy.trans hyz

/-- Among numbers, and among values of one type, the comparison is transitive. -/
theorem compare_ne_gt_trans (ha : a.isNaN = false) (hb : b.isNaN = false) (hc : c.isNaN = false)
    (hsame : a.isNumeric ∧ b.isNumeric ∧ c.isNumeric ∨ a.type = b.type ∧ b.type = c.type)
    (hab : a.compare b ≠ .gt) (hbc : b.compare c ≠ .gt) : a.compare c ≠ .gt := by
  have hnumeric (h : a.isNumeric ∧ b.isNumeric ∧ c.isNumeric) : a.compare c ≠ .gt := by
    obtain ⟨hna, hnb, hnc⟩ := h
    rw [compare_numeric hna hnb] at hab
    rw [compare_numeric hnb hnc] at hbc
    rw [compare_numeric hna hnc]
    exact compareFloat_ne_gt_trans (toFloat_isNaN hna ha) (toFloat_isNaN hnb hb) (toFloat_isNaN hnc hc)
      hab hbc
  rcases hsame with h | ⟨htype, htype'⟩
  · exact hnumeric h
  · have hbytes {r s t : Bytes} (hrs : Ord.compare r s ≠ .gt) (hst : Ord.compare s t ≠ .gt) :
        Ord.compare r t ≠ .gt :=
      Ordering.ne_gt_iff_isLE.2 (Std.TransCmp.isLE_trans (Ordering.ne_gt_iff_isLE.1 hrs)
        (Ordering.ne_gt_iff_isLE.1 hst))
    rcases cases_of_type_eq htype with ⟨rfl, rfl⟩ | ⟨hna, hnb⟩ | ⟨r, s, rfl, rfl⟩ | ⟨r, s, rfl, rfl⟩
    · exact hbc
    · exact hnumeric ⟨hna, hnb, by rwa [isNumeric, ← htype']⟩
    · rcases cases_of_type_eq htype' with ⟨h, -⟩ | ⟨h, -⟩ | ⟨_, t, h, rfl⟩ | ⟨_, _, h, -⟩ <;> cases h
      exact hbytes hab hbc
    · rcases cases_of_type_eq htype' with ⟨h, -⟩ | ⟨h, -⟩ | ⟨_, _, h, -⟩ | ⟨_, t, h, rfl⟩ <;> cases h
      exact hbytes hab hbc

/-! ### Equal values have equal hashes -/

/-- Equal values have equal hashes. -/
theorem hash_congr (std : StdHash) (h : a == b) : a.hash std = b.hash std := by
  by_cases hnumeric : a.isNumeric ∧ b.isNumeric
  · obtain ⟨ha, hb⟩ := hnumeric
    rw [beq_numeric ha hb] at h
    simp only [hash, ha, hb, if_true, std.double_congr h]
  · rw [not_and_or] at hnumeric
    rw [(beq_of_not_numeric (hnumeric.imp Bool.eq_false_iff.2 Bool.eq_false_iff.2)).1 h]

/-! ### One order on a set of values -/

/-- The values have one order: `compare` is a total preorder, `==` is its equality, and `hash` respects
it. -/
structure OrderedOn (std : StdHash) (D : Set Value) : Prop where
  swap : ∀ a ∈ D, ∀ b ∈ D, b.compare a = (a.compare b).swap
  trans : ∀ a ∈ D, ∀ b ∈ D, ∀ c ∈ D, a.compare b ≠ .gt → b.compare c ≠ .gt → a.compare c ≠ .gt
  eq_iff : ∀ a ∈ D, ∀ b ∈ D, a.compare b = .eq ↔ a == b
  hash_eq : ∀ a ∈ D, ∀ b ∈ D, a == b → a.hash std = b.hash std

/-- With a text around, every boolean exceeds every number. -/
def BooleansBehindNumbers (D : Set Value) : Prop :=
  ∀ n ∈ D, ∀ s ∈ D, ∀ b ∈ D, n.IsNumber → s.type = .text → b.type = .boolean → n.toFloat < b.toFloat

/-- The numbers in one group, as the comparison of a number with a text or a blob takes them. -/
def groupOf (booleans : Nat) (value : Value) : Nat :=
  match value.type with
  | .integer | .real => 1
  | .boolean => booleans
  | type => type.toNat

variable {D : Set Value} {std : StdHash}

/-- Values in different groups compare by their groups, when the booleans are with the numbers and no text is
around, or behind the texts and behind all numbers. -/
theorem compare_of_groupOf {booleans : Nat}
    (hbooleans : booleans = 1 ∧ (∀ s ∈ D, s.type ≠ .text) ∨ booleans = 4 ∧
      ∀ n ∈ D, ∀ b ∈ D, n.IsNumber → b.type = .boolean → n.compare b = .lt)
    (ha : a ∈ D) (hb : b ∈ D) (hne : groupOf booleans a ≠ groupOf booleans b) :
    a.compare b = Ord.compare (groupOf booleans a) (groupOf booleans b) := by
  rcases hbooleans with ⟨rfl, htext⟩ | ⟨rfl, hlt⟩
  · have hta := htext a ha
    have htb := htext b hb
    cases a <;> cases b <;> first | exact absurd rfl hta | exact absurd rfl htb | exact absurd rfl hne | rfl
  · rcases compare_cases a b with ⟨hna, hnb, -⟩ | ⟨rfl, rfl, -⟩ | ⟨s, t, ⟨rfl, rfl⟩ | ⟨rfl, rfl⟩, -⟩ | ⟨hor, -, h⟩
    · -- a number and a boolean, in either order
      rcases isNumeric_iff.1 hna with hna | hna <;> rcases isNumeric_iff.1 hnb with hnb | hnb
      · rcases hna with hna | hna <;> rcases hnb with hnb | hnb <;>
          exact absurd (by rw [groupOf, groupOf, hna, hnb]) hne
      · have h := hlt a ha b hb hna hnb
        rcases hna with hna | hna <;> rw [h, groupOf, groupOf, hna, hnb] <;> rfl
      · have h := hlt b hb a ha hnb hna
        rcases hnb with hnb | hnb <;> rw [compare_swap, h, groupOf, groupOf, hna, hnb] <;> rfl
      · exact absurd (by rw [groupOf, groupOf, hna, hnb]) hne
    · exact absurd rfl hne
    · exact absurd rfl hne
    · exact absurd rfl hne
    · rw [h]
      cases a <;> cases b <;> first | exact absurd rfl hne | rfl

/-- Values in one group are numbers or of one type. -/
theorem same_of_groupOf {booleans : Nat} (hbooleans : booleans = 1 ∨ booleans = 4)
    (h : groupOf booleans a = groupOf booleans b) :
    a.isNumeric ∧ b.isNumeric ∨ a.isNumeric = false ∧ a.type = b.type := by
  rcases hbooleans with rfl | rfl <;> cases a <;> cases b <;>
    first | exact .inl ⟨rfl, rfl⟩ | exact .inr ⟨rfl, rfl⟩ | exact absurd h (by simp [groupOf, type, ValueType.toNat])

/-- Values without NaN have one order exactly when, with a text around, every boolean exceeds every
number. -/
theorem orderedOn_iff (std : StdHash) (D : Set Value) (hnan : ∀ v ∈ D, v.isNaN = false) :
    OrderedOn std D ↔ BooleansBehindNumbers D := by
  constructor
  · intro h n hn s hs b hb hnumber htext hboolean
    have hnumeric : n.isNumeric := isNumeric_iff.2 (.inl hnumber)
    have hbnumeric : b.isNumeric := isNumeric_iff.2 (.inr hboolean)
    have hns : n.compare s = .lt := by
      rcases hnumber with hn | hn <;> cases n <;> cases hn <;> cases s <;> cases htext <;> rfl
    have hsb : s.compare b = .lt := by
      cases s <;> cases htext
      cases b <;> cases hboolean
      rfl
    -- a boolean that does not exceed the number would not exceed the text either
    have hgt : ¬b.compare n ≠ .gt := fun hle ↦
      h.trans b hb n hn s hs hle (hns ▸ nofun) (by rw [compare_swap, hsb]; rfl)
    have hlt : n.compare b = .lt := by
      rw [compare_swap, not_not.1 hgt]
      rfl
    rw [compare_numeric hnumeric hbnumeric, compareFloat_eq (toFloat_isNaN hnumeric (hnan n hn))
      (toFloat_isNaN hbnumeric (hnan b hb)), compare_lt_iff_lt] at hlt
    exact (Float.lt_iff_rank (toFloat_isNaN hnumeric (hnan n hn))
      (toFloat_isNaN hbnumeric (hnan b hb))).2 hlt
  · intro h
    have hbooleans : ∃ booleans, booleans = 1 ∧ (∀ s ∈ D, s.type ≠ .text) ∨ booleans = 4 ∧
        ∀ n ∈ D, ∀ b ∈ D, n.IsNumber → b.type = .boolean → n.compare b = .lt := by
      by_cases htext : ∃ s ∈ D, s.type = .text
      · obtain ⟨s, hs, htext⟩ := htext
        refine ⟨4, .inr ⟨rfl, fun n hn b hb hnumber hboolean ↦ ?_⟩⟩
        rw [compare_numeric (isNumeric_iff.2 (.inl hnumber)) (isNumeric_iff.2 (.inr hboolean)),
          compareFloat, if_pos (h n hn s hs b hb hnumber htext hboolean)]
      · exact ⟨1, .inl ⟨rfl, fun s hs hs' ↦ htext ⟨s, hs, hs'⟩⟩⟩
    obtain ⟨booleans, hbooleans⟩ := hbooleans
    have hsame {a b : Value} := @same_of_groupOf a b booleans (hbooleans.imp And.left And.left)
    refine ⟨fun a _ b _ ↦ compare_swap a b, ?_, fun a ha b hb ↦ compare_eq_iff (hnan a ha) (hnan b hb),
      fun a _ b _ ↦ hash_congr std⟩
    refine ne_gt_trans_of_group (groupOf booleans) (fun a ha b hb ↦ compare_of_groupOf hbooleans ha hb) ?_
    intro a ha b hb c hc hab hbc
    refine compare_ne_gt_trans (hnan a ha) (hnan b hb) (hnan c hc) ?_
    rcases hsame hab with ⟨hna, hnb⟩ | ⟨hna, htype⟩
    · rcases hsame hbc with ⟨-, hnc⟩ | ⟨hnb', -⟩
      · exact .inl ⟨hna, hnb, hnc⟩
      · exact absurd (hnb'.symm.trans hnb) Bool.false_ne_true
    · rcases hsame hbc with ⟨hnb, -⟩ | ⟨-, htype'⟩
      · rw [isNumeric, ← htype, ← isNumeric, hna] at hnb
        exact absurd hnb Bool.false_ne_true
      · exact .inr ⟨htype, htype'⟩

/-- A hash that tells doubles apart by their places, and texts by their bytes. -/
def spreadHash : StdHash where
  double x :=
    let place := ofLex x.rank
    combineHash (combineHash (Int64.ofInt place.1).toUInt64 (Int64.ofInt (ofLex place.2).1).toUInt64)
      (Int64.ofInt (ofLex place.2).2).toUInt64
  string text := text.foldl (fun seed byte ↦ combineHash seed byte.toUInt64) 0
  double_congr {x y} h := by
    have hnan : x.isNaN = false ∧ y.isNaN = false := by
      rw [← Bool.not_eq_true, ← Bool.not_eq_true, ← not_or]
      exact fun hnan ↦ Float.not_beq_of_isNaN hnan h
    rw [(Float.beq_iff_rank hnan.1 hnan.2).1 h]

/-- TRUE is less than 5, which is less than any text, and every text is less than TRUE. -/
theorem not_orderedOn_cycle : ¬OrderedOn spreadHash {boolean true, integer 5, text []} := by
  intro h
  exact h.trans (boolean true) (by simp) (integer 5) (by simp) (text []) (by simp) (by decide +kernel)
    (by decide +kernel) rfl

/-- A Boolean, an integer and a text. -/
theorem orderedOn_zero_true : OrderedOn spreadHash {boolean true, integer 0, text []} := by
  refine (orderedOn_iff spreadHash _ ?_).2 ?_
  · rintro v (rfl | rfl | rfl) <;> decide +kernel
  · rintro n (rfl | rfl | rfl) s (rfl | rfl | rfl) b (rfl | rfl | rfl) hn hs hb <;>
      first | (cases hs; done) | (cases hb; done) | (rcases hn with hn | hn <;> cases hn; done) |
        decide +kernel

end Value

end SkibidiQL
