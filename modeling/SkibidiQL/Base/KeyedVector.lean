import Mathlib.Data.List.Basic

/-!
# Vectors with a table of keys

A vector keeps one element of each key, and a table says at which position. An element whose key is new is
appended; one whose key is present replaces the element there or is dropped. `offer` is the same on the
vector alone, and the rules below read off it what an access through the table does.
-/

namespace KeyedVector

variable {α κ : Type} {key : α → κ} {elems : List α} {table table' : κ → Option Nat} {a b : α} {i : Nat}

/-- The table gives the position of the element with each key. -/
def Positions (key : α → κ) (elems : List α) (table : κ → Option Nat) : Prop :=
  ∀ k i, table k = some i ↔ ∃ a, elems[i]? = some a ∧ key a = k

theorem Positions.nil (h : ∀ k, table k = none) : Positions key [] table := fun k i ↦ by simp [h k]

/-- The position that the table gives holds an element with the key. -/
theorem Positions.get (h : Positions key elems table) {k : κ} (hk : table k = some i) :
    ∃ a, elems[i]? = some a ∧ key a = k :=
  (h k i).1 hk

/-- A key without a position is new. -/
theorem Positions.ne_of_none (h : Positions key elems table) (hb : table (key b) = none) :
    ∀ a ∈ elems, key a ≠ key b := by
  intro a ha hkey
  obtain ⟨i, hi⟩ := List.getElem?_of_mem ha
  rw [(h (key b) i).2 ⟨a, hi, hkey⟩] at hb
  cases hb

/-- The key of an element is not the key of another one. -/
theorem Positions.eq_of_key (h : Positions key elems table) {j : Nat} (hi : elems[i]? = some a)
    (hj : elems[j]? = some b) (hkey : key a = key b) : i = j :=
  Option.some.inj
    (((h (key b) i).2 ⟨a, hi, hkey⟩).symm.trans ((h (key b) j).2 ⟨b, hj, rfl⟩))

/-- An element with a new key is appended, and its position stored. -/
theorem Positions.append (h : Positions key elems table) (hb : table (key b) = none)
    (hstored : table' (key b) = some elems.length) (hothers : ∀ k, k ≠ key b → table' k = table k) :
    Positions key (elems ++ [b]) table' := by
  intro k j
  by_cases hk : k = key b
  · rw [hk, hstored, Option.some.injEq]
    constructor
    · rintro rfl
      exact ⟨b, List.getElem?_concat_length, rfl⟩
    · rintro ⟨c, hc, hkey⟩
      rcases Nat.lt_or_ge j elems.length with hlt | hge
      · rw [List.getElem?_append_left hlt] at hc
        exact absurd hkey (h.ne_of_none hb c (List.mem_of_getElem? hc))
      · have hbound := (List.getElem?_eq_some_iff.1 hc).1
        rw [List.length_append, List.length_singleton] at hbound
        omega
  · rw [hothers k hk, h k j]
    constructor
    · rintro ⟨c, hc, hkey⟩
      have hlt := (List.getElem?_eq_some_iff.1 hc).1
      exact ⟨c, by rw [List.getElem?_append_left hlt, hc], hkey⟩
    · rintro ⟨c, hc, hkey⟩
      rcases Nat.lt_or_ge j elems.length with hlt | hge
      · rw [List.getElem?_append_left hlt] at hc
        exact ⟨c, hc, hkey⟩
      · have hc' := List.mem_of_getElem? ((List.getElem?_append_right hge).symm.trans hc)
        rw [List.mem_singleton.1 hc'] at hkey
        exact absurd hkey.symm hk

/-- An element is replaced by one with the same key. -/
theorem Positions.set (h : Positions key elems table) (hi : elems[i]? = some a)
    (hkey : key b = key a) : Positions key (elems.set i b) table := by
  intro k j
  have hlt := (List.getElem?_eq_some_iff.1 hi).1
  rw [h k j]
  by_cases hij : i = j
  · subst hij
    rw [List.getElem?_set_self hlt, hi]
    simp [hkey]
  · rw [List.getElem?_set_ne hij]

/-- Replacing an element by itself changes nothing. -/
theorem set_of_getElem? (hi : elems[i]? = some a) : elems.set i a = elems := by
  obtain ⟨hlt, rfl⟩ := List.getElem?_eq_some_iff.1 hi
  exact List.set_getElem_self hlt

variable [DecidableEq κ] {beats : α → α → Bool}

/-- A candidate is appended, or competes with the element that has its key. -/
def offer (key : α → κ) (beats : α → α → Bool) (candidate : α) : List α → List α
  | [] => [candidate]
  | current :: elems =>
    if key current = key candidate then
      (if beats candidate current then candidate else current) :: elems
    else current :: offer key beats candidate elems

/-- An element of a new key is appended. -/
theorem offer_of_new (h : ∀ a ∈ elems, key a ≠ key b) : offer key beats b elems = elems ++ [b] := by
  induction elems with
  | nil => rfl
  | cons a elems ih =>
    obtain ⟨ha, hrest⟩ := List.forall_mem_cons.1 h
    rw [offer, if_neg ha, ih hrest]
    rfl

/-- An element of a known key takes its place when it beats what is there. -/
theorem offer_of_present (hi : elems[i]? = some a) (hkey : key a = key b)
    (hfirst : ∀ j c, elems[j]? = some c → key c = key b → j = i) :
    offer key beats b elems = elems.set i (if beats b a then b else a) := by
  induction elems generalizing i with
  | nil => cases hi
  | cons c elems ih =>
    cases i with
    | zero =>
      obtain rfl : c = a := Option.some.inj hi
      rw [offer, if_pos hkey]
      rfl
    | succ i =>
      have hc : key c ≠ key b := fun h ↦ absurd (hfirst 0 c rfl h) nofun
      rw [offer, if_neg hc, ih hi fun j d hj hd ↦ Nat.succ.inj (hfirst (j + 1) d hj hd)]
      rfl

/-- With a new key, the candidate is appended. -/
theorem Positions.offer_of_none (h : Positions key elems table) (hb : table (key b) = none) :
    offer key beats b elems = elems ++ [b] :=
  offer_of_new (h.ne_of_none hb)

/-- With a key that is present, the candidate competes with the element at its position. -/
theorem Positions.offer_of_some (h : Positions key elems table) (hb : table (key b) = some i)
    (hi : elems[i]? = some a) (hkey : key a = key b) :
    offer key beats b elems = elems.set i (if beats b a then b else a) :=
  offer_of_present hi hkey fun j _ hj hc ↦
    Option.some.inj (((h (key b) j).2 ⟨_, hj, hc⟩).symm.trans hb)

end KeyedVector
