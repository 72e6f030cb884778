import SkibidiQL.Base.KeyedGroups

/-!
# Computations in lockstep

Two computations that may fail are in lockstep when both return related results or both fail, with whatever
errors. Computations made of parts in lockstep are in lockstep.
-/

namespace Except

variable {ε ε' α β α' β' : Type} {R : α → β → Prop} {S : α' → β' → Prop}

/-- Both return related results, or both fail. -/
inductive Lockstep (R : α → β → Prop) : Except ε α → Except ε' β → Prop where
  | ok {a : α} {b : β} (h : R a b) : Lockstep R (.ok a) (.ok b)
  | error (e : ε) (e' : ε') : Lockstep R (.error e) (.error e')

/-- Sequences run in lockstep when their parts do. -/
theorem Lockstep.bind {x : Except ε α} {y : Except ε' β} {f : α → Except ε α'} {g : β → Except ε' β'}
    (h : Lockstep R x y) (hnext : ∀ a b, R a b → Lockstep S (f a) (g b)) : Lockstep S (x >>= f) (y >>= g) := by
  cases h with
  | ok h => exact hnext _ _ h
  | error e e' => exact .error e e'

/-- Lockstep in one relation is lockstep in a weaker one. -/
theorem Lockstep.mono {x : Except ε α} {y : Except ε' β} {T : α → β → Prop} (h : Lockstep R x y)
    (himp : ∀ a b, R a b → T a b) : Lockstep T x y := by
  cases h with
  | ok h => exact .ok (himp _ _ h)
  | error e e' => exact .error e e'

/-- What the left one returns, the right one returns up to the relation. -/
theorem Lockstep.eq_ok {x : Except ε α} {y : Except ε' β} (h : Lockstep R x y) {a : α} (hx : x = .ok a) :
    ∃ b, y = .ok b ∧ R a b := by
  subst hx
  cases h with
  | ok h => exact ⟨_, rfl, h⟩

/-- Where one side returns the other does. -/
theorem Lockstep.ok_eq {x : Except ε α} {y : Except ε' β} (h : Lockstep R x y) {b : β} (hy : y = .ok b) :
    ∃ a, x = .ok a ∧ R a b := by
  subst hy
  cases h with
  | ok h => exact ⟨_, rfl, h⟩

theorem lockstep_of_fails {x : Except ε α} {y : Except ε' β} (hx : x.Fails) (hy : y.Fails) : Lockstep R x y := by
  obtain ⟨e, rfl⟩ := hx
  obtain ⟨e', rfl⟩ := hy
  exact .error e e'

/-- Folds over lists whose entries are related. -/
theorem lockstep_foldlM {f : α → α' → Except ε α} {g : β → β' → Except ε' β}
    (hstep : ∀ a b a' b', R a b → S a' b' → Lockstep R (f a a') (g b b')) {l : List α'} {m : List β'}
    (hlists : List.Forall₂ S l m) {a : α} {b : β} (hstart : R a b) :
    Lockstep R (l.foldlM f a) (m.foldlM g b) := by
  induction hlists generalizing a b with
  | nil => exact .ok hstart
  | cons hhead _ ih =>
    rw [List.foldlM_cons, List.foldlM_cons]
    exact (hstep _ _ _ _ hstart hhead).bind fun a' b' hnext ↦ ih hnext

end Except

/-! ### Folds and filters -/

namespace List

variable {ε α β σ : Type}

/-- A fold that fails on one of the entries, in whatever state it comes to it. -/
theorem foldlM_fails_of_mem {step : σ → α → Except ε σ} {l : List α} {a : α} (h : a ∈ l)
    (hfails : ∀ s, (step s a).Fails) (s : σ) : (l.foldlM step s).Fails := by
  induction l generalizing s with
  | nil => cases h
  | cons b l ih =>
    rw [foldlM_cons, Except.fails_bind]
    rcases mem_cons.1 h with rfl | h
    · exact .inl (hfails s)
    · cases hstep : step s b with
      | error e => exact .inl (Except.fails_error e)
      | ok s' => exact .inr ⟨s', rfl, ih h s'⟩

/-- A fold over the entries that a filter keeps. -/
theorem foldlM_where {p : α → Except ε Bool} {step : σ → α → Except ε σ} (l : List α) (s : σ) :
    Except.Lockstep Eq (l.foldlM (fun s a ↦ do if ← p a then step s a else pure s) s)
      (l.filterM p >>= fun kept ↦ kept.foldlM step s) := by
  -- The filter asks the condition of all entries first, the fold asks it in between its steps.
  by_cases hall : ∀ a ∈ l, ∃ b, p a = .ok b
  · obtain ⟨q, hq⟩ : ∃ q : α → Bool, ∀ a ∈ l, p a = .ok (q a) := by
      refine ⟨fun a ↦ (p a).toOption.getD false, fun a ha ↦ ?_⟩
      obtain ⟨b, hb⟩ := hall a ha
      show p a = .ok ((p a).toOption.getD false)
      rw [hb]
      rfl
    have hfold : l.foldlM (fun s a ↦ do if ← p a then step s a else pure s) s = (l.filter q).foldlM step s := by
      clear hall
      induction l generalizing s with
      | nil => rfl
      | cons a l ih =>
        obtain ⟨ha, hl⟩ := forall_mem_cons.1 hq
        rw [foldlM_cons, ha, Except.ok_bind, filter_cons]
        cases q a with
        | false => exact ih s hl
        | true =>
          rw [if_pos rfl, if_pos rfl, foldlM_cons]
          exact bind_congr fun s' ↦ ih s' hl
    rw [hfold, filterM_eq_ok hq, Except.ok_bind]
    cases (l.filter q).foldlM step s with
    | error e => exact .error e e
    | ok s' => exact .ok rfl
  · obtain ⟨a, ha, hfails⟩ : ∃ a ∈ l, (p a).Fails := by
      by_contra hnone
      refine hall fun a ha ↦ Except.not_fails_iff.1 fun hfails ↦ hnone ⟨a, ha, hfails⟩
    refine Except.lockstep_of_fails (foldlM_fails_of_mem ha (fun s' ↦ Except.fails_bind.2 (.inl hfails)) s)
      (Except.fails_bind.2 (.inl ?_))
    rw [← not_not (a := (l.filterM p).Fails), Except.not_fails_iff]
    rintro ⟨kept, hkept⟩
    obtain ⟨q, hq, -⟩ := exists_of_filterM_eq_ok hkept
    rw [hq a ha] at hfails
    exact Except.not_fails_ok _ hfails

/-- A fold that puts the results one behind the other. -/
theorem foldlM_append_singleton (f : α → Except ε β) (l : List α) (done : List β) :
    l.foldlM (fun done a ↦ do pure (done ++ [← f a])) done = l.mapM f >>= fun results ↦ .ok (done ++ results) := by
  induction l generalizing done with
  | nil => rw [mapM_nil, Except.pure_eq_ok, Except.ok_bind, append_nil]; rfl
  | cons a l ih =>
    rw [foldlM_cons, mapM_cons]
    cases f a with
    | error e => rfl
    | ok b =>
      simp only [Except.ok_bind, bind_assoc, pure_bind]
      rw [ih]
      refine bind_congr fun results ↦ ?_
      rw [append_assoc]
      rfl

end List

/-! ### Groups -/

namespace KeyedGroups

variable {κ σ σ' ε ε' : Type} [BEq κ] {R : σ → σ' → Prop} {init : σ} {init' : σ'} {f : σ → Except ε σ}
  {f' : σ' → Except ε' σ'}

/-- Modifying related groups keeps them in lockstep. -/
theorem modifyAt_lockstep (hinit : R init init') (hstep : ∀ s s', R s s' → Except.Lockstep R (f s) (f' s'))
    (key : κ) {groups : List (κ × σ)} {groups' : List (κ × σ')} (hgroups : Related R groups groups') :
    Except.Lockstep (Related R) (modifyAt init f key groups) (modifyAt init' f' key groups') := by
  induction hgroups with
  | nil => exact (hstep _ _ hinit).bind fun s s' h ↦ .ok (.cons ⟨rfl, h⟩ .nil)
  | @cons group group' rest rest' hhead hrest ih =>
    obtain ⟨k, s⟩ := group
    obtain ⟨k', s'⟩ := group'
    obtain ⟨hkey, hstate⟩ := hhead
    obtain rfl : k = k' := hkey
    rw [modifyAt, modifyAt]
    split
    · exact (hstep _ _ hstate).bind fun t t' h ↦ .ok (.cons ⟨rfl, h⟩ hrest)
    · exact ih.bind fun t t' h ↦ .ok (.cons ⟨rfl, hstate⟩ h)

end KeyedGroups
