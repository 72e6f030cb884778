import Mathlib

/-!
# Programs with state and exceptions

Rules for programs of `EStateM`, which keep the state reached when they throw. `Keeps R` says that the
state after a run, ended by a value or an exception, is related by `R` to the state before; for a preorder
`R` it follows from the parts of the program.
-/

namespace EStateM

variable {ε σ α β : Type}

/-! ### Runs -/

section Bind

variable {x : EStateM ε σ α} {f : α → EStateM ε σ β} {s s' : σ}

theorem bind_of_ok {a : α} (h : x s = .ok a s') : (x >>= f) s = f a s' := by
  show EStateM.bind x f s = f a s'
  rw [EStateM.bind, h]

theorem bind_of_error {e : ε} (h : x s = .error e s') : (x >>= f) s = .error e s' := by
  show EStateM.bind x f s = .error e s'
  rw [EStateM.bind, h]

/-- A sequence that returned has returned in both parts. -/
theorem exists_of_bind_eq_ok {b : β} (h : (x >>= f) s = .ok b s') :
    ∃ a s₁, x s = .ok a s₁ ∧ f a s₁ = .ok b s' := by
  rcases hx : x s with ⟨a, s₁⟩ | ⟨e, s₁⟩
  · exact ⟨a, s₁, rfl, (bind_of_ok hx).symm.trans h⟩
  · rw [bind_of_error hx] at h
    exact nomatch h

end Bind

/-- The state that a run ends in. -/
def final (x : EStateM ε σ α) (s : σ) : σ :=
  match x s with
  | .ok _ s' => s'
  | .error _ s' => s'

theorem final_of_ok {x : EStateM ε σ α} {s s' : σ} {a : α} (h : x s = .ok a s') :
    x.final s = s' := by
  rw [final, h]

theorem final_of_error {x : EStateM ε σ α} {s s' : σ} {e : ε} (h : x s = .error e s') :
    x.final s = s' := by
  rw [final, h]

/-- A value computed by evaluation. -/
theorem eq_of_run' {x : EStateM ε σ α} {s : σ} {a : α} (h : x.run' s = some a) :
    x s = .ok a (x.final s) := by
  rw [EStateM.run', EStateM.run] at h
  cases hx : x s with
  | ok b s' =>
    rw [hx] at h
    rw [final_of_ok hx, Option.some.inj h]
  | error e s' =>
    rw [hx] at h
    cases h

/-- The result of a run that only looks at the state. -/
def answer (result : Except ε α) (s : σ) : Result ε σ α :=
  match result with
  | .ok a => .ok a s
  | .error e => .error e s

/-- Answering changes no state. -/
theorem answer_eq_ok {result : Except ε α} {s s' : σ} {a : α} (h : answer result s = .ok a s') :
    result = .ok a ∧ s' = s := by
  rcases result with e | b
  · exact nomatch h
  · obtain ⟨rfl, rfl⟩ := Result.ok.inj h
    exact ⟨rfl, rfl⟩

/-! ### What all runs keep -/

/-- Every run takes the state along `R`. -/
def Keeps (R : σ → σ → Prop) (x : EStateM ε σ α) : Prop :=
  ∀ s, R s (x.final s)

variable {R : σ → σ → Prop}

/-- What is kept is kept where the computation returns. -/
theorem Keeps.ok {x : EStateM ε σ α} (h : Keeps R x) {s s' : σ} {a : α} (hx : x s = .ok a s') :
    R s s' := by
  rw [← final_of_ok hx]
  exact h s

/-- What is kept is kept where the computation fails. -/
theorem Keeps.error {x : EStateM ε σ α} (h : Keeps R x) {s s' : σ} {e : ε}
    (hx : x s = .error e s') : R s s' := by
  rw [← final_of_error hx]
  exact h s

theorem Keeps.mono {Q : σ → σ → Prop} {x : EStateM ε σ α} (h : Keeps R x)
    (hRQ : ∀ s s', R s s' → Q s s') : Keeps Q x :=
  fun s ↦ hRQ _ _ (h s)

theorem Keeps.modify {f : σ → σ} (h : ∀ s, R s (f s)) :
    Keeps R (MonadState.modifyGet fun s ↦ (⟨⟩, f s) : EStateM ε σ PUnit) :=
  fun s ↦ h s

/-- A program that starts by looking at the state. -/
theorem Keeps.get_bind {f : σ → EStateM ε σ β} (hf : ∀ s, R s ((f s).final s)) :
    Keeps R (MonadState.get >>= f) :=
  hf

/-- A choice keeps what both branches do. -/
theorem Keeps.ite {p : Prop} [Decidable p] {x y : EStateM ε σ α} (hx : p → Keeps R x)
    (hy : ¬p → Keeps R y) : Keeps R (if p then x else y) := by
  split
  · exact hx ‹_›
  · exact hy ‹_›

section Preorder

variable [IsPreorder σ R]

theorem Keeps.pure (a : α) : Keeps R (Pure.pure a : EStateM ε σ α) :=
  fun s ↦ refl s

theorem Keeps.throw (e : ε) : Keeps R (MonadExcept.throw e : EStateM ε σ α) :=
  fun s ↦ refl s

theorem Keeps.get : Keeps R (MonadState.get : EStateM ε σ σ) :=
  fun s ↦ refl s

/-- A sequence keeps a transitive relation that its parts keep. -/
theorem Keeps.bind {x : EStateM ε σ α} {f : α → EStateM ε σ β} (hx : Keeps R x)
    (hf : ∀ a, Keeps R (f a)) : Keeps R (x >>= f) := by
  intro s
  cases h : x s with
  | ok a s' =>
    rw [final, bind_of_ok h]
    exact IsTrans.trans _ _ _ (hx.ok h) (hf a s')
  | error e s' =>
    rw [final, bind_of_error h]
    exact hx.error h

/-- The rest of a program needs to keep `R` after the values that its first part returns. -/
theorem Keeps.bind_ok {x : EStateM ε σ α} {f : α → EStateM ε σ β} (hx : Keeps R x)
    (hf : ∀ a s s', x s = .ok a s' → R s' ((f a).final s')) : Keeps R (x >>= f) := by
  intro s
  cases h : x s with
  | ok a s' =>
    rw [final, bind_of_ok h]
    exact IsTrans.trans _ _ _ (hx.ok h) (hf a s s' h)
  | error e s' =>
    rw [final, bind_of_error h]
    exact hx.error h

theorem Keeps.answer (result : Except ε α) : Keeps R (EStateM.answer result : EStateM ε σ α) := by
  rcases result with e | a
  · exact .throw e
  · exact .pure a

/-- A loop keeps what its body does. -/
theorem Keeps.forM {items : List β} {f : β → EStateM ε σ PUnit} (hf : ∀ item, Keeps R (f item)) :
    Keeps R (items.forM f) := by
  induction items with
  | nil => exact .pure PUnit.unit
  | cons item items ih => exact (hf item).bind fun _ ↦ ih

end Preorder

end EStateM
