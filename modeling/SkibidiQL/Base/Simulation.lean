import Mathlib.Data.List.Induction

/-!
# Machines that answer

A machine takes operations one after the other, answers each and goes on from the state after it. One machine
simulates another when related states give the same answers and stay related; then it does over whole runs.
-/

namespace SkibidiQL

variable {ι α σ τ : Type} {step : ι → σ → α × σ} {step' : ι → τ → α × τ} {R : σ → τ → Prop}

/-- The answers to a sequence of operations, and the state after them. -/
def runOps (step : ι → σ → α × σ) : List ι → σ → List α × σ
  | [], s => ([], s)
  | op :: ops, s =>
    let (answer, s) := step op s
    let (answers, s) := runOps step ops s
    (answer :: answers, s)

theorem runOps_cons (op : ι) (ops : List ι) (s : σ) : runOps step (op :: ops) s =
    ((step op s).1 :: (runOps step ops (step op s).2).1, (runOps step ops (step op s).2).2) :=
  rfl

/-- The state after a run that goes on. -/
theorem runOps_append (ops ops' : List ι) (s : σ) :
    runOps step (ops ++ ops') s =
      ((runOps step ops s).1 ++ (runOps step ops' (runOps step ops s).2).1,
        (runOps step ops' (runOps step ops s).2).2) := by
  induction ops generalizing s with
  | nil => rfl
  | cons op ops ih => rw [List.cons_append, runOps_cons, ih, runOps_cons, List.cons_append]

/-- What every operation keeps, a run keeps. -/
theorem runOps_invariant {P : σ → Prop} (hstep : ∀ op s, P s → P (step op s).2) {s : σ} (h : P s)
    (ops : List ι) : P (runOps step ops s).2 := by
  induction ops generalizing s with
  | nil => exact h
  | cons op ops ih => exact ih (hstep op s h)

/-- Related states answer every operation alike and stay related. -/
def IsSimulation (R : σ → τ → Prop) (step : ι → σ → α × σ) (step' : ι → τ → α × τ) : Prop :=
  ∀ op s t, R s t → (step op s).1 = (step' op t).1 ∧ R (step op s).2 (step' op t).2

/-- Related states answer every sequence of operations alike and stay related. -/
theorem IsSimulation.run (h : IsSimulation R step step') {s : σ} {t : τ} (hR : R s t) (ops : List ι) :
    (runOps step ops s).1 = (runOps step' ops t).1 ∧ R (runOps step ops s).2 (runOps step' ops t).2 := by
  induction ops generalizing s t with
  | nil => exact ⟨rfl, hR⟩
  | cons op ops ih =>
    obtain ⟨hanswer, hnext⟩ := h op s t hR
    obtain ⟨hanswers, hfinal⟩ := ih hnext
    exact ⟨by rw [runOps_cons, runOps_cons, hanswer, hanswers], hfinal⟩

/-! ### Machines that may not answer -/

section Partial

variable {move : ι → σ → Option (α × σ)}

/-- The answers to a sequence of operations, when each is answered, and the state after them. -/
def runPartial (move : ι → σ → Option (α × σ)) : List ι → σ → Option (List α × σ)
  | [], s => some ([], s)
  | op :: ops, s => do
    let (answer, s) ← move op s
    let (answers, s) ← runPartial move ops s
    return (answer :: answers, s)

/-- The last operation comes last. -/
theorem runPartial_concat (ops : List ι) (op : ι) (s : σ) : runPartial move (ops ++ [op]) s = (do
    let (answers, s) ← runPartial move ops s
    let (answer, s) ← move op s
    return (answers ++ [answer], s)) := by
  induction ops generalizing s with
  | nil =>
    show runPartial move [op] s = (move op s >>= _)
    rw [runPartial]
    rfl
  | cons first ops ih =>
    rw [List.cons_append, runPartial, runPartial]
    simp only [ih, Option.bind_eq_bind, Option.bind_assoc]
    rfl

/-- Every operation of the run meets the condition in the state that it finds. -/
def RunMeets (move : ι → σ → Option (α × σ)) (P : ι → σ → Prop) (ops : List ι) (s : σ) : Prop :=
  ∀ before op, before ++ [op] <+: ops → ∀ answers t, runPartial move before s = some (answers, t) → P op t

/-- When every operation that meets the condition is answered and keeps the invariant, so is every run. -/
theorem runPartial_invariant {P : ι → σ → Prop} {I : List ι → List α → σ → Prop} {s : σ} (hstart : I [] [] s)
    {ops : List ι} (hstep : ∀ before op answers t, before ++ [op] <+: ops → I before answers t → P op t →
      ∃ answer t', move op t = some (answer, t') ∧ I (before ++ [op]) (answers ++ [answer]) t')
    (hmeets : RunMeets move P ops s) : ∃ answers t, runPartial move ops s = some (answers, t) ∧ I ops answers t := by
  induction ops using List.reverseRecOn with
  | nil => exact ⟨[], s, rfl, hstart⟩
  | append_singleton ops op ih =>
    have hprefix : ops <+: ops ++ [op] := List.prefix_append _ _
    obtain ⟨answers, t, hrun, hI⟩ := ih (fun before next answers t hnext ↦ hstep before next answers t
      (hnext.trans hprefix)) fun before next hnext ↦ hmeets before next (hnext.trans hprefix)
    obtain ⟨answer, t', hmove, hI'⟩ := hstep ops op answers t List.prefix_rfl hI
      (hmeets ops op List.prefix_rfl answers t hrun)
    refine ⟨answers ++ [answer], t', ?_, hI'⟩
    rw [runPartial_concat, hrun]
    show (move op t >>= _) = _
    rw [hmove]
    rfl

/-- A run meets a condition when its first operation does and the rest behind it. -/
theorem runMeets_cons {P : ι → σ → Prop} {op : ι} {ops : List ι} {s : σ} (h : P op s)
    (hrest : ∀ answer t, move op s = some (answer, t) → RunMeets move P ops t) : RunMeets move P (op :: ops) s := by
  intro before next hnext answers t hrun
  cases before with
  | nil =>
    obtain ⟨rfl, -⟩ := List.cons_prefix_cons.1 hnext
    cases hrun
    exact h
  | cons first before =>
    obtain ⟨rfl, hbefore⟩ := List.cons_prefix_cons.1 hnext
    rw [runPartial] at hrun
    obtain ⟨⟨answer, s'⟩, hmove, hrun⟩ := Option.bind_eq_some_iff.1 hrun
    obtain ⟨⟨answers', t'⟩, hrun, heq⟩ := Option.bind_eq_some_iff.1 hrun
    cases heq
    exact hrest answer s' hmove before next hbefore answers' t hrun

/-- An invariant under which the condition holds makes every run meet it. -/
theorem runMeets_of_invariant {P : ι → σ → Prop} {I : σ → Prop} {ops : List ι} {s : σ} (hstart : I s)
    (hmeets : ∀ op ∈ ops, ∀ t, I t → P op t)
    (hstep : ∀ op ∈ ops, ∀ t answer t', I t → move op t = some (answer, t') → I t') : RunMeets move P ops s := by
  induction ops generalizing s with
  | nil =>
    intro before op hprefix
    exact absurd (List.prefix_nil.1 hprefix) (List.append_ne_nil_of_right_ne_nil _ (List.cons_ne_nil _ _))
  | cons op ops ih =>
    refine runMeets_cons (hmeets op List.mem_cons_self s hstart) fun answer t hmove ↦
      ih (hstep op List.mem_cons_self s answer t hstart hmove) (fun next hnext ↦ ?_) fun next hnext ↦ ?_
    · exact hmeets next (List.mem_cons_of_mem _ hnext)
    · exact hstep next (List.mem_cons_of_mem _ hnext)

end Partial

end SkibidiQL
