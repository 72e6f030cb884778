import Mathlib.Data.List.Basic

/-!
# Logs of records

Records that follow each other in a log. A reader takes records off the front as long as it finds a whole
one. Where no record can be read off a part of itself, a log that was cut off anywhere reads as the records
that are whole in it.
-/

/-! ### Taking parts off the front -/

/-- Readers of the front of a log, which find too little at its end. -/
abbrev FrontReader (β : Type) := StateT (List β) Option

namespace FrontReader

variable {α α' β : Type}

/-- So many entries. -/
def take (n : Nat) : FrontReader β (List β) := fun input ↦
  if n ≤ input.length then some (input.take n, input.drop n) else none

/-- The front is taken off what stands behind it. -/
theorem take_append {n : Nat} {part : List β} (h : part.length = n) (rest : List β) :
    take n (part ++ rest) = some (part, rest) := by
  subst h
  rw [take, if_pos (by rw [List.length_append]; omega), List.take_left, List.drop_left]

/-- Reading goes on behind what was read. -/
theorem bind_of_eq {read : FrontReader β α} {next : α → FrontReader β α'} {input rest : List β} {a : α}
    (h : read input = some (a, rest)) : (read >>= next) input = next a rest := by
  show StateT.bind read next input = next a rest
  rw [StateT.bind, h]
  rfl

/-- What has been read stays what it is when the log goes on. -/
def Stable (read : FrontReader β α) : Prop :=
  ∀ ⦃input rest a⦄, read input = some (a, rest) → ∀ more, read (input ++ more) = some (a, rest ++ more)

theorem Stable.pure (a : α) : Stable (Pure.pure a : FrontReader β α) := by
  rintro input rest _ ⟨⟩ more
  rfl

/-- Reading a number of elements is stable. -/
theorem Stable.take (n : Nat) : Stable (take n : FrontReader β (List β)) := by
  intro input rest part h more
  rw [FrontReader.take] at h
  split at h
  · next hle =>
    cases h
    rw [FrontReader.take, if_pos (by rw [List.length_append]; omega), List.take_append_of_le_length hle,
      List.drop_append_of_le_length hle]
  · cases h

/-- Reading one thing after another is stable. -/
theorem Stable.bind {read : FrontReader β α} {next : α → FrontReader β α'} (h : Stable read)
    (hnext : ∀ a, Stable (next a)) : Stable (read >>= next) := by
  intro input rest a heq more
  obtain ⟨⟨b, middle⟩, hread, hrest⟩ := Option.bind_eq_some_iff.1 heq
  rw [bind_of_eq (h hread more)]
  exact hnext b hrest more

end FrontReader

/-! ### Records -/

/-- How a record is written, and how one is taken off the front of a log. -/
structure RecordFormat (ρ β : Type) where
  encode : ρ → List β
  read : List β → Option (ρ × List β)

namespace RecordFormat

variable {ρ β : Type} (format : RecordFormat ρ β)

/-- The records of a log, at most so many. -/
def readAll : Nat → List β → List ρ
  | 0, _ => []
  | rounds + 1, log =>
    match format.read log with
    | none => []
    | some (record, rest) => record :: readAll rounds rest

/-- The records of a log: no record is empty, so there are no more of them than entries. -/
def records (log : List β) : List ρ :=
  format.readAll log.length log

/-- The records, one behind the other. -/
def write (records : List ρ) : List β :=
  records.flatMap format.encode

/-- The record is read back, and nothing is read from a part of it. -/
structure Delimits (record : ρ) : Prop where
  ne_nil : format.encode record ≠ []
  read_append : ∀ rest, format.read (format.encode record ++ rest) = some (record, rest)
  read_take : ∀ k < (format.encode record).length, format.read ((format.encode record).take k) = none

variable {format} {record : ρ} {records : List ρ}

@[simp] theorem write_nil : format.write [] = [] :=
  rfl

@[simp] theorem write_cons : format.write (record :: records) = format.encode record ++ format.write records :=
  List.flatMap_cons

theorem write_append (records records' : List ρ) :
    format.write (records ++ records') = format.write records ++ format.write records' :=
  List.flatMap_append

/-- A reader that is not misled by more log finds nothing in a part of the record. -/
theorem Delimits.of_stable (hne : format.encode record ≠ []) (hstable : FrontReader.Stable format.read)
    (hread : format.read (format.encode record) = some (record, [])) : format.Delimits record where
  ne_nil := hne
  read_append := hstable hread
  read_take k hk := by
    rw [Option.eq_none_iff_forall_ne_some]
    rintro ⟨record', rest⟩ htaken
    have hwhole := hstable htaken ((format.encode record).drop k)
    rw [List.take_append_drop, hread, Option.some.injEq, Prod.mk.injEq] at hwhole
    obtain ⟨-, hdrop⟩ := List.append_eq_nil_iff.1 hwhole.2.symm
    exact absurd (List.drop_eq_nil_iff.1 hdrop) (Nat.not_le_of_lt hk)

theorem Delimits.length_pos (h : format.Delimits record) : 0 < (format.encode record).length :=
  List.length_pos_iff.2 h.ne_nil

theorem Delimits.read_nil (h : format.Delimits record) : format.read [] = none :=
  h.read_take 0 h.length_pos

/-- Records off the front of a log with something behind them. -/
theorem readAll_write_append (h : ∀ record ∈ records, format.Delimits record) (rest : List β) (rounds : Nat) :
    format.readAll (records.length + rounds) (format.write records ++ rest) =
      records ++ format.readAll rounds rest := by
  induction records with
  | nil => rw [write_nil, List.nil_append, List.nil_append, List.length_nil, Nat.zero_add]
  | cons record records ih =>
    obtain ⟨hrecord, hrecords⟩ := List.forall_mem_cons.1 h
    rw [List.length_cons, Nat.add_right_comm, readAll, write_cons, List.append_assoc, hrecord.read_append]
    exact congrArg (record :: ·) (ih hrecords)

/-- More rounds than entries change nothing. -/
theorem length_le_length_write (h : ∀ record ∈ records, format.Delimits record) :
    records.length ≤ (format.write records).length := by
  induction records with
  | nil => exact Nat.le_refl _
  | cons record records ih =>
    obtain ⟨hrecord, hrecords⟩ := List.forall_mem_cons.1 h
    have hpos := hrecord.length_pos
    have hrest := ih hrecords
    rw [write_cons, List.length_append, List.length_cons]
    omega

/-- What follows the records is read as if it stood alone, when it holds no record at its front. -/
theorem records_write_append (h : ∀ record ∈ records, format.Delimits record) {rest : List β}
    (hrest : format.read rest = none) : format.records (format.write records ++ rest) = records := by
  obtain ⟨rounds, hrounds⟩ := Nat.exists_eq_add_of_le (length_le_length_write h)
  have hnone (n : Nat) : format.readAll n rest = [] := by
    cases n with
    | zero => rfl
    | succ n => rw [readAll, hrest]
  rw [RecordFormat.records, List.length_append, hrounds, Nat.add_assoc, readAll_write_append h, hnone,
    List.append_nil]

/-- Records that are written are read back. -/
theorem records_of_write (h : ∀ record ∈ records, format.Delimits record) :
    format.records (format.write records) = records := by
  cases records with
  | nil => rfl
  | cons record records =>
    simpa using records_write_append h (List.forall_mem_cons.1 h).1.read_nil

/-- A log that ends with part of a record: it is read when it is whole. -/
theorem records_torn (h : ∀ record ∈ records, format.Delimits record) {last : ρ} (hlast : format.Delimits last)
    (k : Nat) : format.records (format.write records ++ (format.encode last).take k) =
      if (format.encode last).length ≤ k then records ++ [last] else records := by
  split
  · next hwhole =>
    have hall : ∀ record ∈ records ++ [last], format.Delimits record :=
      List.forall_mem_append.2 ⟨h, List.forall_mem_singleton.2 hlast⟩
    have hwrite : format.write [last] = format.encode last := by
      rw [write_cons, write_nil, List.append_nil]
    rw [List.take_of_length_le hwhole, ← hwrite, ← write_append, records_of_write hall]
  · next htorn => exact records_write_append h (hlast.read_take k (Nat.lt_of_not_le htorn))

/-- How many of the records are whole in the first `n` entries of the log. -/
def wholeIn (format : RecordFormat ρ β) : Nat → List ρ → Nat
  | _, [] => 0
  | n, record :: records =>
    if (format.encode record).length ≤ n then format.wholeIn (n - (format.encode record).length) records + 1
    else 0

/-- A log that was cut off anywhere reads as the records that are whole in it. -/
theorem records_take (h : ∀ record ∈ records, format.Delimits record) (n : Nat) :
    format.records ((format.write records).take n) = records.take (format.wholeIn n records) := by
  suffices hsplit : ∀ done : List ρ, (∀ record ∈ done, format.Delimits record) →
      format.records (format.write done ++ (format.write records).take n) =
        done ++ records.take (format.wholeIn n records) from hsplit [] (List.forall_mem_nil _)
  induction records generalizing n with
  | nil =>
    intro done hdone
    rw [write_nil, List.take_nil, List.take_nil, List.append_nil, List.append_nil, records_of_write hdone]
  | cons record records ih =>
    intro done hdone
    obtain ⟨hrecord, hrecords⟩ := List.forall_mem_cons.1 h
    rw [wholeIn, write_cons, List.take_append]
    split
    · next hwhole =>
      have hall : ∀ r ∈ done ++ [record], format.Delimits r :=
        List.forall_mem_append.2 ⟨hdone, List.forall_mem_singleton.2 hrecord⟩
      have hnext := ih hrecords (n - (format.encode record).length) (done ++ [record]) hall
      rw [write_append, write_cons, write_nil, List.append_nil, List.append_assoc, List.append_assoc] at hnext
      rw [List.take_of_length_le hwhole, hnext]
      rfl
    · next htorn =>
      have hlt := Nat.lt_of_not_le htorn
      rw [Nat.sub_eq_zero_of_le (Nat.le_of_lt hlt), List.take_zero, List.append_nil, List.take_zero, List.append_nil,
        records_torn hdone hrecord, if_neg htorn]

end RecordFormat
