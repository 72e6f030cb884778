import Mathlib.Logic.Function.Iterate
import Mathlib.Order.Basic

/-!
# Following aliases

A table of aliases sends a name to another name or to none. A resolver follows it from a name until it
finds none, meets a name again, or runs out of hops (`chase`). A name at which nothing changes any more is
final; the resolver reaches a final name exactly when there is one within its hops (`final_chase_iff`), and
that is then what it returns (`chase_eq`).

When entries are redirected from names that lead to `s` towards a final name `t`, names that lead elsewhere
are not affected (`Redirects.keeps`), and the others lead to `t` one hop later at most
(`Redirects.moves`).
-/

namespace AliasChain

variable {α : Type} {next next' : α → Option α} {x r s t : α} {n hops : ℕ}

/-- One hop, which stays in place when there is none. -/
def step (next : α → Option α) (x : α) : α :=
  (next x).getD x

/-- No hop leads elsewhere. -/
def Final (next : α → Option α) (x : α) : Prop :=
  step next x = x

instance [DecidableEq α] (next : α → Option α) (x : α) : Decidable (Final next x) :=
  inferInstanceAs (Decidable (step next x = x))

/-- The name is at most `n` hops away from a final one. -/
def Within (next : α → Option α) (n : ℕ) (x : α) : Prop :=
  Final next ((step next)^[n] x)

instance [DecidableEq α] (next : α → Option α) (n : ℕ) (x : α) : Decidable (Within next n x) :=
  inferInstanceAs (Decidable (Final next _))

/-- A place is final when it leads nowhere else. -/
theorem final_iff : Final next x ↔ ∀ y, next x = some y → y = x := by
  rw [Final, step]
  rcases next x with - | y
  · exact iff_of_true rfl nofun
  · exact ⟨fun h z hz ↦ Option.some.inj hz ▸ h, fun h ↦ h y rfl⟩

theorem step_of_eq_some {y : α} (h : next x = some y) : step next x = y := by
  rw [step, h, Option.getD_some]

theorem Final.iterate (h : Final next x) (n : ℕ) : (step next)^[n] x = x :=
  Function.iterate_fixed h n

theorem within_zero : Within next 0 x ↔ Final next x :=
  Iff.rfl

theorem within_succ : Within next (n + 1) x ↔ Within next n (step next x) :=
  Iff.rfl

/-- Further steps stay where the chain has ended. -/
theorem Within.iterate_eq (h : Within next n x) {m : ℕ} (hm : n ≤ m) :
    (step next)^[m] x = (step next)^[n] x := by
  obtain ⟨k, rfl⟩ := Nat.exists_eq_add_of_le' hm
  rw [Function.iterate_add_apply]
  exact Final.iterate h k

/-- A bound on the length of a chain may be raised. -/
theorem Within.mono (h : Within next n x) {m : ℕ} (hm : n ≤ m) : Within next m x := by
  rw [Within, h.iterate_eq hm]
  exact h

theorem Within.of_iterate {k : ℕ} (h : Final next ((step next)^[k] x)) (hk : k ≤ n) : Within next n x :=
  Within.mono h hk

/-- What holds of a name and of all names that the table sends to holds on the way. -/
theorem iterate_induction {P : α → Prop} (hx : P x) (hnext : ∀ y z, next y = some z → P z) (n : ℕ) :
    P ((step next)^[n] x) := by
  induction n with
  | zero => exact hx
  | succ n ih =>
    rw [Function.iterate_succ_apply', step]
    rcases hz : next ((step next)^[n] x) with - | z
    · exact ih
    · exact hnext _ z hz

/-! ### The resolver -/

section Chase

variable [DecidableEq α]

/-- Follow the table with the given number of hops left; `seen` are the names met so far. -/
def chase (next : α → Option α) : ℕ → List α → α → α
  | 0, _, x => x
  | hops + 1, seen, x =>
    if x ∈ seen then x
    else
      match next x with
      | none => x
      | some y => chase next hops (x :: seen) y

/-- The resolver returns a name on the way. -/
theorem exists_chase_eq (hops : ℕ) (seen : List α) (x : α) :
    ∃ k ≤ hops, chase next hops seen x = (step next)^[k] x := by
  induction hops generalizing seen x with
  | zero => exact ⟨0, Nat.le_refl 0, rfl⟩
  | succ hops ih =>
    rw [chase]
    split
    · exact ⟨0, Nat.zero_le _, rfl⟩
    · split
      · exact ⟨0, Nat.zero_le _, rfl⟩
      · rename_i y hy
        obtain ⟨k, hk, heq⟩ := ih (x :: seen) y
        refine ⟨k + 1, Nat.succ_le_succ hk, ?_⟩
        rw [heq, Function.iterate_succ_apply, step_of_eq_some hy]

/-- What holds of the start and of every place led to holds where the chase ends. -/
theorem chase_induction {P : α → Prop} (hx : P x) (hnext : ∀ y z, next y = some z → P z) (hops : ℕ) :
    P (chase next hops [] x) := by
  have hchase : ∃ k ≤ hops, chase next hops [] x = (step next)^[k] x := exists_chase_eq hops [] x
  obtain ⟨k, -, heq⟩ := hchase
  exact heq ▸ iterate_induction hx hnext k

/-- The resolver from a name that has a final one within reach. The names it has seen are further away, so
none of them is met again. -/
theorem chase_of_within {seen : List α} (hn : n ≤ hops) (h : Within next n x)
    (hseen : ∀ y ∈ seen, ∀ m, Within next m y → ∃ k < m, Within next k x) :
    chase next hops seen x = (step next)^[n] x := by
  induction hops generalizing seen x n with
  | zero =>
    rw [Nat.le_zero.1 hn]
    rfl
  | succ hops ih =>
    -- A name that is its own predecessor would be ever nearer to its end.
    have hnew : x ∉ seen := by
      intro hmem
      have hdescent : ∀ m, ¬Within next m x := by
        intro m
        induction m using Nat.strongRecOn with
        | ind m ihm =>
          intro hm
          obtain ⟨k, hk, hwithin⟩ := hseen x hmem m hm
          exact ihm k hk hwithin
      exact hdescent n h
    rw [chase, if_neg hnew]
    rcases hnext : next x with - | y
    · have hfinal : Final next x := final_iff.2 (by rw [hnext]; nofun)
      exact (hfinal.iterate n).symm
    · have hstep := step_of_eq_some hnext
      show chase next hops (x :: seen) y = _
      by_cases hyx : y = x
      · subst hyx
        have hfinal : Final next y := hstep
        rw [hfinal.iterate n]
        cases hops with
        | zero => rfl
        | succ hops => rw [chase, if_pos List.mem_cons_self]
      · obtain _ | n := n
        · exact absurd (hstep.symm.trans h) hyx
        · rw [Function.iterate_succ_apply, hstep]
          refine ih (Nat.le_of_succ_le_succ hn) (hstep ▸ h) fun z hz m hm ↦ ?_
          have hback {m : ℕ} (hm : Within next m x) : ∃ k < m, Within next k y := by
            obtain _ | m := m
            · exact absurd (hstep.symm.trans hm) hyx
            · exact ⟨m, Nat.lt_succ_self m, hstep ▸ hm⟩
          rcases List.mem_cons.1 hz with rfl | hz
          · exact hback hm
          · obtain ⟨k, hk, hwithin⟩ := hseen z hz m hm
            obtain ⟨l, hl, hl'⟩ := hback hwithin
            exact ⟨l, Nat.lt_trans hl hk, hl'⟩

/-- With a final name within its hops, the resolver returns it. -/
theorem chase_eq (hn : n ≤ hops) (h : Within next n x) : chase next hops [] x = (step next)^[n] x :=
  chase_of_within hn h fun _ hy ↦ absurd hy List.not_mem_nil

/-- The resolver returns a final name exactly when there is one within its hops. -/
theorem final_chase_iff : Final next (chase next hops [] x) ↔ Within next hops x := by
  constructor
  · intro h
    have hchase : ∃ k ≤ hops, chase next hops [] x = (step next)^[k] x := exists_chase_eq hops [] x
    obtain ⟨k, hk, heq⟩ := hchase
    exact Within.of_iterate (heq ▸ h) hk
  · intro h
    rw [chase_eq (Nat.le_refl hops) h]
    exact h

theorem Final.chase (h : Final next x) : chase next hops [] x = x :=
  chase_eq (Nat.zero_le hops) (within_zero.2 h)

end Chase

/-! ### Redirected entries -/

/-- Entries of some names that lead to `s` point to `t` instead. -/
def Redirects (next next' : α → Option α) (s t : α) : Prop :=
  ∀ x, next' x = next x ∨ next' x = some t ∧ ∃ n, (step next)^[n] x = s

theorem step_congr (h : next' x = next x) : step next' x = step next x := by
  rw [step, step, h]

/-- A name leads to one final name only. -/
theorem final_unique (hr : Final next ((step next)^[n] x)) {m : ℕ} (hs : Final next ((step next)^[m] x)) :
    (step next)^[n] x = (step next)^[m] x := by
  rcases Nat.le_total n m with h | h
  · exact (Within.iterate_eq hr h).symm
  · exact Within.iterate_eq hs h

namespace Redirects

variable (h : Redirects next next' s t) (hs : Final next s)
include h hs

/-- Names that lead elsewhere are not affected. -/
theorem keeps (hwithin : Within next n x) (hne : (step next)^[n] x ≠ s) :
    Within next' n x ∧ (step next')^[n] x = (step next)^[n] x := by
  have hsame {k : ℕ} (y : α) (hy : Within next k y) (hne : (step next)^[k] y ≠ s) :
      step next' y = step next y := by
    rcases h y with heq | ⟨-, m, hm⟩
    · exact step_congr heq
    · exact absurd ((final_unique hy (hm.symm ▸ hs)).trans hm) hne
  have hiterate : ∀ k ≤ n, (step next')^[k] x = (step next)^[k] x := by
    intro k
    induction k with
    | zero => exact fun _ ↦ rfl
    | succ k ih =>
      intro hk
      rw [Function.iterate_succ_apply', Function.iterate_succ_apply', ih (Nat.le_of_succ_le hk)]
      have hsplit : (step next)^[n - k] ((step next)^[k] x) = (step next)^[n] x := by
        rw [← Function.iterate_add_apply, Nat.sub_add_cancel (Nat.le_of_succ_le hk)]
      refine hsame (k := n - k) _ ?_ (hsplit ▸ hne)
      rw [Within, hsplit]
      exact hwithin
  have hlast := hiterate n (Nat.le_refl n)
  refine ⟨?_, hlast⟩
  rw [Within, hlast, Final, hsame (k := 0) _ hwithin hne]
  exact hwithin

/-- A final name other than `s` stays final. -/
theorem final_of_ne (hr : Final next r) (hne : r ≠ s) : Final next' r :=
  (h.keeps hs (n := 0) hr hne).1

/-- Names that lead to `s` lead to `t` when `s` does, one hop later at most. -/
theorem moves (ht : Final next t) (hts : t ≠ s) (hnext : next' s = some t) (hlead : (step next)^[n] x = s) :
    Within next' (n + 1) x ∧ (step next')^[n + 1] x = t := by
  have htfinal := h.final_of_ne hs ht hts
  induction n generalizing x with
  | zero =>
    obtain rfl : x = s := hlead
    have hstep : step next' x = t := step_of_eq_some hnext
    exact ⟨within_succ.2 (within_zero.2 (hstep.symm ▸ htfinal)), hstep⟩
  | succ n ih =>
    rcases h x with heq | ⟨heq, -⟩
    · have hrest := ih (x := step next x) hlead
      rw [← step_congr heq] at hrest
      exact hrest
    · have hstep : step next' x = t := step_of_eq_some heq
      have hlast : (step next')^[n + 1 + 1] x = t := by
        rw [Function.iterate_succ_apply, hstep]
        exact htfinal.iterate _
      refine ⟨?_, hlast⟩
      rw [Within, hlast]
      exact htfinal

end Redirects

/-- One entry is set to a final name that a second name leads to: then both lead to it. -/
theorem of_set [DecidableEq α] {a b : α} (hset : ∀ x, next' x = if x = a then some r else next x)
    (hr : Final next r) (hb : (step next)^[n] b = r) :
    Final next' r ∧ step next' a = r ∧ (step next')^[n] b = r := by
  have ha : step next' a = r := step_of_eq_some (by rw [hset, if_pos rfl])
  have hsame {x : α} (hx : x ≠ a) : step next' x = step next x :=
    step_congr (by rw [hset, if_neg hx])
  have hfinal : Final next' r := by
    by_cases hra : r = a
    · rw [← hra] at ha
      exact ha
    · exact (hsame hra).trans hr
  refine ⟨hfinal, ha, ?_⟩
  induction n generalizing b with
  | zero => exact hb
  | succ n ih =>
    rw [Function.iterate_succ_apply]
    by_cases hba : b = a
    · rw [hba, ha]
      exact hfinal.iterate n
    · rw [hsame hba]
      exact ih hb

/-! ### Names that lead through an entry -/

/-- The name `a` is met within `n` hops from `x`. -/
def Passes (next : α → Option α) (n : ℕ) (x a : α) : Prop :=
  ∃ k, k < n + 1 ∧ (step next)^[k] x = a

instance [DecidableEq α] (next : α → Option α) (n : ℕ) (x a : α) : Decidable (Passes next n x a) :=
  inferInstanceAs (Decidable (∃ k, k < n + 1 ∧ (step next)^[k] x = a))

section Set

variable [DecidableEq α] {a : α} (hset : ∀ x, next' x = if x = a then some r else next x)
include hset

/-- When the entry of `a` is set to a final name, the names that lead through `a` lead there. -/
theorem Passes.of_set (hr : Final next r) (h : Passes next n x a) :
    Within next' (n + 1) x ∧ (step next')^[n + 1] x = r := by
  have hfinal : Final next' r := (AliasChain.of_set hset hr (n := 0) rfl).1
  have hend : (step next')^[n + 1] x = r := by
    obtain ⟨k, hk, hpass⟩ := h
    induction n generalizing x k with
    | zero =>
      obtain rfl : k = 0 := by omega
      obtain rfl : x = a := hpass
      exact step_of_eq_some (by rw [hset, if_pos rfl])
    | succ n ih =>
      rw [Function.iterate_succ_apply]
      by_cases hx : x = a
      · have hstep : step next' x = r := step_of_eq_some (by rw [hset, if_pos hx])
        rw [hstep]
        exact hfinal.iterate (n + 1)
      · rw [step_congr (by rw [hset, if_neg hx])]
        rcases k with _ | k
        · exact absurd hpass hx
        · exact ih k (by omega) hpass
  refine ⟨?_, hend⟩
  rw [Within, hend]
  exact hfinal

/-- The names that do not lead through `a` are not affected. -/
theorem Within.of_set (hx : Within next n x) (havoid : ¬Passes next n x a) :
    Within next' n x ∧ (step next')^[n] x = (step next)^[n] x := by
  have hsame : ∀ k ≤ n, step next' ((step next)^[k] x) = step next ((step next)^[k] x) :=
    fun k hk ↦ step_congr (by rw [hset, if_neg fun heq ↦ havoid ⟨k, Nat.lt_succ_of_le hk, heq⟩])
  have hiterate : ∀ k ≤ n, (step next')^[k] x = (step next)^[k] x := by
    intro k
    induction k with
    | zero => exact fun _ ↦ rfl
    | succ k ih =>
      intro hk
      rw [Function.iterate_succ_apply', Function.iterate_succ_apply', ih (Nat.le_of_succ_le hk),
        hsame k (Nat.le_of_succ_le hk)]
  refine ⟨?_, hiterate n (Nat.le_refl n)⟩
  rw [Within, hiterate n (Nat.le_refl n), Final, hsame n (Nat.le_refl n)]
  exact hx

end Set

end AliasChain
