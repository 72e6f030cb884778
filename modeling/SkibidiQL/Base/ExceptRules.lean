import Mathlib.Data.List.Forall2

/-!
# Computations that can fail

Rules for `Except`: a bind succeeds when both of its parts do, and a list of computations when each does.
-/

namespace Except

variable {ε α β : Type}

@[simp]
theorem ok_bind (a : α) (f : α → Except ε β) : (ok a >>= f) = f a :=
  rfl

@[simp]
theorem error_bind (e : ε) (f : α → Except ε β) : (error e >>= f) = error e :=
  rfl

@[simp]
theorem pure_eq_ok (a : α) : (pure a : Except ε α) = ok a :=
  rfl

@[simp]
theorem throw_eq_error (e : ε) : (throw e : Except ε α) = error e :=
  rfl

@[simp]
theorem bind_ok (x : Except ε α) : (x >>= fun a ↦ ok a) = x := by
  rcases x with e | a <;> rfl

/-- A sequence returns when both of its parts do. -/
theorem bind_eq_ok {x : Except ε α} {f : α → Except ε β} {b : β} :
    (x >>= f) = ok b ↔ ∃ a, x = ok a ∧ f a = ok b := by
  rcases x with e | a
  · simp
  · simp

/-- Whether the computation fails, with whatever error. -/
def Fails (x : Except ε α) : Prop :=
  ∃ e, x = error e

@[simp]
theorem fails_error (e : ε) : (error e : Except ε α).Fails :=
  ⟨e, rfl⟩

@[simp]
theorem not_fails_ok (a : α) : ¬(ok a : Except ε α).Fails :=
  nofun

theorem not_fails_iff {x : Except ε α} : ¬x.Fails ↔ ∃ a, x = ok a := by
  rcases x with e | a
  · simp
  · simp

/-- A sequence fails in its first part, or in its second after the first has returned. -/
theorem fails_bind {x : Except ε α} {f : α → Except ε β} :
    (x >>= f).Fails ↔ x.Fails ∨ ∃ a, x = ok a ∧ (f a).Fails := by
  rcases x with e | a
  · simp
  · simp

/-! ### Up to the error -/

@[simp]
theorem toOption_ok (a : α) : (ok a : Except ε α).toOption = some a :=
  rfl

@[simp]
theorem toOption_error (e : ε) : (error e : Except ε α).toOption = none :=
  rfl

theorem toOption_eq_some {x : Except ε α} {a : α} : x.toOption = some a ↔ x = ok a := by
  rcases x with e | b <;> simp

theorem toOption_eq_none {x : Except ε α} : x.toOption = none ↔ x.Fails := by
  rcases x with e | b <;> simp

theorem toOption_bind (x : Except ε α) (f : α → Except ε β) :
    (x >>= f).toOption = x.toOption.bind fun a ↦ (f a).toOption := by
  rcases x with e | a <;> rfl

end Except

namespace List

variable {ε α β : Type} {f : α → Except ε β} {l : List α} {bs : List β}

/-- A traversal returns the results of the elements. -/
theorem mapM_eq_ok_iff : l.mapM f = .ok bs ↔ Forall₂ (fun a b ↦ f a = .ok b) l bs := by
  induction l generalizing bs with
  | nil => simp [eq_comm]
  | cons a l ih =>
    rw [mapM_cons, Except.bind_eq_ok]
    constructor
    · rintro ⟨b, hb, h⟩
      obtain ⟨rest, hrest, h⟩ := Except.bind_eq_ok.1 h
      obtain rfl := Except.ok.inj h
      exact .cons hb (ih.1 hrest)
    · rintro (_ | ⟨hb, hrest⟩)
      exact ⟨_, hb, Except.bind_eq_ok.2 ⟨_, ih.2 hrest, rfl⟩⟩

/-- What a list of computations returns comes from one of them. -/
theorem exists_of_mem_mapM (h : l.mapM f = .ok bs) {b : β} (hb : b ∈ bs) : ∃ a ∈ l, f a = .ok b := by
  rw [mapM_eq_ok_iff] at h
  induction h with
  | nil => cases hb
  | cons hab _ ih =>
    rcases mem_cons.1 hb with rfl | hb
    · exact ⟨_, mem_cons_self, hab⟩
    · obtain ⟨a, ha, hfa⟩ := ih hb
      exact ⟨a, mem_cons_of_mem _ ha, hfa⟩

/-- A traversal fails exactly when an element does. -/
theorem mapM_fails_iff : (l.mapM f).Fails ↔ ∃ a ∈ l, (f a).Fails := by
  induction l with
  | nil => simp
  | cons a l ih =>
    rw [mapM_cons, Except.fails_bind]
    rcases hfa : f a with e | b
    · simp [hfa]
    · simp [hfa, Except.fails_bind, ih]

theorem mapM_eq_ok {g : α → β} (h : ∀ a ∈ l, f a = .ok (g a)) : l.mapM f = .ok (l.map g) := by
  rw [mapM_eq_ok_iff, forall₂_map_right_iff, forall₂_same]
  exact h

/-- A list of computations that all succeed. -/
theorem exists_mapM_eq_ok (h : ∀ a ∈ l, ∃ b, f a = .ok b) : ∃ bs, l.mapM f = .ok bs := by
  rw [← Except.not_fails_iff, mapM_fails_iff]
  rintro ⟨a, ha, hfails⟩
  exact Except.not_fails_iff.2 (h a ha) hfails

/-- A traversal that returns still does under a function that returns the same. -/
theorem mapM_ok_imp {g : α → Except ε β} (h : l.mapM f = .ok bs)
    (himp : ∀ a ∈ l, ∀ b, f a = .ok b → g a = .ok b) : l.mapM g = .ok bs := by
  rw [mapM_eq_ok_iff] at h ⊢
  induction h with
  | nil => exact .nil
  | cons hab _ ih =>
    obtain ⟨ha, hl⟩ := forall_mem_cons.1 himp
    exact .cons (ha _ hab) (ih hl)

/-- A traversal depends on the function at the elements only. -/
theorem mapM_congr {g : α → Except ε β} (h : ∀ a ∈ l, f a = g a) : l.mapM f = l.mapM g := by
  induction l with
  | nil => rfl
  | cons a l ih =>
    obtain ⟨ha, hl⟩ := forall_mem_cons.1 h
    rw [mapM_cons, mapM_cons, ha, ih hl]

/-- Computations in another order have their results in that order. -/
theorem Perm.mapM_eq_ok {l' : List α} (hperm : l.Perm l') (h : l.mapM f = .ok bs) :
    ∃ bs', l'.mapM f = .ok bs' ∧ bs.Perm bs' := by
  rw [mapM_eq_ok_iff] at h
  simp only [mapM_eq_ok_iff]
  induction hperm generalizing bs with
  | nil =>
    cases h
    exact ⟨[], .nil, .nil⟩
  | cons a _ ih =>
    cases h with
    | cons hb h =>
      obtain ⟨bs', h', hperm'⟩ := ih h
      exact ⟨_ :: bs', .cons hb h', hperm'.cons _⟩
  | swap a a' l =>
    cases h with
    | cons hb h =>
      cases h with
      | cons hb' h => exact ⟨_, .cons hb' (.cons hb h), .swap _ _ _⟩
  | trans _ _ ih ih' =>
    obtain ⟨bs', h', hperm'⟩ := ih h
    obtain ⟨bs'', h'', hperm''⟩ := ih' h'
    exact ⟨bs'', h'', hperm'.trans hperm''⟩

/-- The accumulator of a monadic filter is kept behind. -/
theorem filterAuxM_eq {p : α → Except ε Bool} (l acc : List α) :
    filterAuxM p l acc = filterAuxM p l [] >>= fun kept ↦ .ok (kept ++ acc) := by
  induction l generalizing acc with
  | nil => rfl
  | cons a l ih =>
    rw [filterAuxM, filterAuxM]
    rcases p a with e | b
    · rfl
    · simp only [Except.ok_bind]
      rw [ih, ih (cond b [a] [])]
      rcases filterAuxM p l [] with e | kept
      · rfl
      · cases b <;> simp

/-- A filter whose predicate throws nowhere. -/
theorem filterM_eq_ok {f : α → Except ε Bool} {p : α → Bool} (h : ∀ a ∈ l, f a = .ok (p a)) :
    l.filterM f = .ok (l.filter p) := by
  have haux : filterAuxM f l [] = .ok (l.filter p).reverse := by
    induction l with
    | nil => rfl
    | cons a l ih =>
      obtain ⟨ha, hl⟩ := forall_mem_cons.1 h
      rw [filterAuxM, ha, Except.ok_bind, filterAuxM_eq, ih hl, filter_cons]
      cases p a <;> simp
  rw [filterM, haux]
  simp

/-- What a filter leaves whose predicate has thrown nowhere. -/
theorem exists_of_filterM_eq_ok {f : α → Except ε Bool} {kept : List α} (h : l.filterM f = .ok kept) :
    ∃ p : α → Bool, (∀ a ∈ l, f a = .ok (p a)) ∧ kept = l.filter p := by
  have hall : ∀ a ∈ l, ∃ b, f a = .ok b := by
    rw [filterM] at h
    obtain ⟨kept', haux, -⟩ := Except.bind_eq_ok.1 h
    clear h
    induction l generalizing kept' with
    | nil => exact fun a ha ↦ absurd ha not_mem_nil
    | cons a l ih =>
      rw [filterAuxM] at haux
      obtain ⟨b, hb, haux⟩ := Except.bind_eq_ok.1 haux
      rw [filterAuxM_eq] at haux
      obtain ⟨rest, hrest, -⟩ := Except.bind_eq_ok.1 haux
      exact forall_mem_cons.2 ⟨⟨b, hb⟩, ih rest hrest⟩
  refine ⟨fun a ↦ (f a).toOption.getD false, ?_⟩
  have hp : ∀ a ∈ l, f a = .ok ((f a).toOption.getD false) := by
    intro a ha
    obtain ⟨b, hb⟩ := hall a ha
    rw [hb]
    rfl
  rw [filterM_eq_ok hp] at h
  exact ⟨hp, (Except.ok.inj h).symm⟩

/-- A traversal in `Option` returns the results of the elements. -/
theorem mapM_eq_some_iff {g : α → Option β} : l.mapM g = some bs ↔ Forall₂ (fun a b ↦ g a = some b) l bs := by
  induction l generalizing bs with
  | nil => simp [eq_comm]
  | cons a l ih =>
    rw [mapM_cons]
    constructor
    · intro h
      obtain ⟨b, hb, h⟩ := Option.bind_eq_some_iff.1 h
      obtain ⟨rest, hrest, h⟩ := Option.bind_eq_some_iff.1 h
      obtain rfl := Option.some.inj h
      exact .cons hb (ih.1 hrest)
    · rintro (_ | ⟨hb, hrest⟩)
      exact Option.bind_eq_some_iff.2 ⟨_, hb, Option.bind_eq_some_iff.2 ⟨_, ih.2 hrest, rfl⟩⟩

end List
