import Mathlib.Logic.Relation
import Mathlib.Data.Fintype.Card
import Mathlib.Data.Fintype.EquivFin

/-!
# Locks that are taken in order

Clients that take all the locks of a request one by one, in an order that is the same for all of them, and
give them back before the next request. Nobody ever waits in a circle: a client that waits for a lock holds
only locks in front of it, so along a chain of waiting clients the locks they wait for only move on. Locks
have modes, and a client waits while another one holds the lock in a conflicting mode.
-/

namespace OrderedLocks

/-- What the clients of a lock protocol do with a request: the locks that a request of type `Q` is planned
to take, in the order in which they are taken, and the modes that exclude one another. -/
structure Protocol (Q R M : Type) where
  plans : Q → List (R × M) → Prop
  before : R → R → Prop
  conflict : M → M → Prop
  before_irrefl : ∀ r, ¬before r r
  before_trans : ∀ {r s t}, before r s → before s t → before r t
  conflict_symm : ∀ {m m'}, conflict m m' → conflict m' m
  sorted : ∀ {q plan}, plans q plan → plan.Pairwise fun a b ↦ before a.1 b.1

/-- Where a client is. -/
inductive Phase (Q R M : Type)
  | idle
  | acquiring (request : Q) (remaining : List (R × M))
  | returned (request : Q)
  | releasing

/-- A client: where it is, and the locks it holds. -/
structure Client (Q R M : Type) where
  phase : Phase Q R M
  held : List (R × M)

/-- All clients. -/
abbrev State (C Q R M : Type) := C → Client Q R M

namespace Protocol

variable {C Q R M : Type} (P : Protocol Q R M) (s : State C Q R M)

/-- No client holds the lock in a mode that conflicts. -/
def Free (lock : R × M) : Prop :=
  ∀ d m, (lock.1, m) ∈ (s d).held → ¬P.conflict m lock.2

/-- What a client can do in one step. -/
inductive ClientStep (c : C) : Client Q R M → Prop
  | call {q plan} (hphase : (s c).phase = .idle) (hplan : P.plans q plan) :
    ClientStep c ⟨.acquiring q plan, (s c).held⟩
  | lock {q lock remaining} (hphase : (s c).phase = .acquiring q (lock :: remaining))
    (hfree : P.Free s lock) : ClientStep c ⟨.acquiring q remaining, (s c).held ++ [lock]⟩
  | finish {q} (hphase : (s c).phase = .acquiring q []) : ClientStep c ⟨.returned q, (s c).held⟩
  | leave {q} (hphase : (s c).phase = .returned q) : ClientStep c ⟨.releasing, (s c).held⟩
  | unlock {ahead lock behind} (hphase : (s c).phase = .releasing)
    (hheld : (s c).held = ahead ++ lock :: behind) : ClientStep c ⟨.releasing, ahead ++ behind⟩
  | done (hphase : (s c).phase = .releasing) (hheld : (s c).held = []) : ClientStep c ⟨.idle, []⟩

/-- The client waits for a lock that `d` holds. -/
def WaitsFor (c d : C) : Prop :=
  ∃ q lock remaining m, (s c).phase = .acquiring q (lock :: remaining) ∧ (lock.1, m) ∈ (s d).held ∧
    P.conflict m lock.2

/-- The client waits. -/
def Waits (c : C) : Prop :=
  ∃ d, P.WaitsFor s c d

/-- A client that is in the middle of something can take a step. -/
def CanStep (c : C) : Prop :=
  (s c).phase ≠ .idle ∧ ∃ client, P.ClientStep s c client

/-- All clients before their first request. -/
def initial : State C Q R M :=
  fun _ ↦ ⟨.idle, []⟩

/-- One client takes a step. -/
def Step [DecidableEq C] (s s' : State C Q R M) : Prop :=
  ∃ c client, P.ClientStep s c client ∧ s' = Function.update s c client

/-- The states after any steps of the clients, in any order. -/
inductive Reachable [DecidableEq C] : State C Q R M → Prop
  | init : Reachable initial
  | step {s s'} (hs : Reachable s) (hstep : P.Step s s') : Reachable s'

/-! ### The invariant -/

/-- What a client holds belongs to its request. -/
def HoldsPlan (client : Client Q R M) : Prop :=
  match client.phase with
  | .idle => client.held = []
  | .acquiring q remaining => P.plans q (client.held ++ remaining)
  | .returned q => P.plans q client.held
  | .releasing => True

/-- Two clients never hold a lock in conflicting modes. -/
def Exclusive : Prop :=
  ∀ c d, c ≠ d → ∀ r m m', (r, m) ∈ (s c).held → (r, m') ∈ (s d).held → ¬P.conflict m m'

variable {P s} {c d e : C} {client : Client Q R M}

theorem Reachable.update [DecidableEq C] (hs : P.Reachable s) (hstep : P.ClientStep s c client) :
    P.Reachable (Function.update s c client) :=
  hs.step ⟨c, client, hstep, rfl⟩

/-- A client holds the locks of its plan up to where it stands. -/
theorem ClientStep.holdsPlan (hstep : P.ClientStep s c client) (hc : P.HoldsPlan (s c)) :
    P.HoldsPlan client := by
  unfold HoldsPlan at hc
  cases hstep with
  | call hphase hplan =>
    rw [hphase] at hc
    rw [HoldsPlan, hc]
    exact hplan
  | lock hphase hfree =>
    rw [hphase] at hc
    exact (congrArg _ (List.append_assoc _ _ _)).mpr hc
  | finish hphase =>
    rw [hphase] at hc
    exact (congrArg _ (List.append_nil _)).mp hc
  | leave hphase => trivial
  | unlock hphase hheld => trivial
  | done hphase hheld => rfl

/-- A step adds only locks that are free. -/
theorem ClientStep.mem_held (hstep : P.ClientStep s c client) {lock : R × M}
    (hlock : lock ∈ client.held) : lock ∈ (s c).held ∨ P.Free s lock := by
  cases hstep with
  | call hphase hplan => exact .inl hlock
  | lock hphase hfree =>
    rcases List.mem_append.1 hlock with h | h
    · exact .inl h
    · exact .inr (List.mem_singleton.1 h ▸ hfree)
  | finish hphase => exact .inl hlock
  | leave hphase => exact .inl hlock
  | unlock hphase hheld =>
    refine .inl ?_
    rw [hheld]
    rcases List.mem_append.1 hlock with h | h
    · exact List.mem_append_left _ h
    · exact List.mem_append_right _ (List.mem_cons_of_mem _ h)
  | done hphase hheld => exact nomatch hlock

/-- A step of one client keeps exclusive locks exclusive. -/
theorem Exclusive.update [DecidableEq C] (hs : P.Exclusive s) (hstep : P.ClientStep s c client) :
    P.Exclusive (Function.update s c client) := by
  have hnew {d : C} (hd : c ≠ d) {r m m'} (hm : (r, m) ∈ client.held) (hm' : (r, m') ∈ (s d).held) :
      ¬P.conflict m m' := by
    rcases hstep.mem_held hm with h | h
    · exact hs c d hd r m m' h hm'
    · exact fun hconflict ↦ h d m' hm' (P.conflict_symm hconflict)
  intro a b hab r m m' hm hm'
  by_cases ha : a = c
  · subst ha
    rw [Function.update_self] at hm
    rw [Function.update_of_ne hab.symm] at hm'
    exact hnew hab hm hm'
  · rw [Function.update_of_ne ha] at hm
    by_cases hb : b = c
    · subst hb
      rw [Function.update_self] at hm'
      exact fun hconflict ↦ hnew hab.symm hm' hm (P.conflict_symm hconflict)
    · rw [Function.update_of_ne hb] at hm'
      exact hs a b hab r m m' hm hm'

/-- In every reachable state each client holds what its request planned, and conflicting holders
exclude one another. -/
theorem Reachable.invariant [DecidableEq C] (hs : P.Reachable s) :
    (∀ c, P.HoldsPlan (s c)) ∧ P.Exclusive s := by
  induction hs with
  | init => exact ⟨fun _ ↦ rfl, fun _ _ _ _ _ _ hm ↦ nomatch hm⟩
  | step hs hstep ih =>
    obtain ⟨c, client, hclient, rfl⟩ := hstep
    refine ⟨fun d ↦ ?_, ih.2.update hclient⟩
    by_cases hd : d = c
    · subst hd
      rw [Function.update_self]
      exact hclient.holdsPlan (ih.1 d)
    · rw [Function.update_of_ne hd]
      exact ih.1 d

/-! ### Waiting -/

/-- Along a chain of waiting clients the locks waited for move on in the order. -/
theorem before_of_waitsFor (hs : ∀ c, P.HoldsPlan (s c)) (hcd : P.WaitsFor s c d) {q q' : Q}
    {lock lock' : R × M} {remaining remaining' : List (R × M)}
    (hc : (s c).phase = .acquiring q (lock :: remaining))
    (hd : (s d).phase = .acquiring q' (lock' :: remaining')) : P.before lock.1 lock'.1 := by
  obtain ⟨q, lock₁, remaining₁, m, hphase, hheld, -⟩ := hcd
  cases hc.symm.trans hphase
  have hplan := hs d
  unfold HoldsPlan at hplan
  rw [hd] at hplan
  exact (List.pairwise_append.1 (P.sorted hplan)).2.2 _ hheld _ List.mem_cons_self

/-- Waiting in a chain goes upwards in the order of the locks. -/
theorem before_of_transGen (hs : ∀ c, P.HoldsPlan (s c))
    (hcd : Relation.TransGen (P.WaitsFor s) c d) {q q' : Q} {lock lock' : R × M}
    {remaining remaining' : List (R × M)} (hc : (s c).phase = .acquiring q (lock :: remaining))
    (hd : (s d).phase = .acquiring q' (lock' :: remaining')) : P.before lock.1 lock'.1 := by
  induction hcd generalizing q' lock' remaining' with
  | single h => exact before_of_waitsFor hs h hc hd
  | tail _ h ih =>
    obtain ⟨q₁, lock₁, remaining₁, m, hphase, -⟩ := id h
    exact P.before_trans (ih hphase) (before_of_waitsFor hs h hphase hd)

/-- Nobody waits for itself, even through other clients. -/
theorem waitsFor_acyclic (hs : ∀ c, P.HoldsPlan (s c)) (c : C) :
    ¬Relation.TransGen (P.WaitsFor s) c c := by
  intro h
  obtain ⟨d, ⟨q, lock, remaining, m, hphase, -⟩, -⟩ := Relation.TransGen.head'_iff.1 h
  exact P.before_irrefl _ (before_of_transGen hs h hphase hphase)

/-- A client that somebody waits for and that does not wait itself can take a step. -/
theorem canStep_of_waitsFor (hs : P.HoldsPlan (s d)) (hcd : P.WaitsFor s c d) (hd : ¬P.Waits s d) :
    P.CanStep s d := by
  obtain ⟨q, lock, remaining, m, -, hheld, -⟩ := hcd
  have hne : (s d).held ≠ [] := List.ne_nil_of_mem hheld
  unfold HoldsPlan at hs
  cases hphase : (s d).phase with
  | idle =>
    rw [hphase] at hs
    exact absurd hs hne
  | acquiring q remaining =>
    refine ⟨by rw [hphase]; nofun, ?_⟩
    cases remaining with
    | nil => exact ⟨_, .finish hphase⟩
    | cons lock remaining =>
      refine ⟨_, .lock hphase fun e m hm hconflict ↦ hd ⟨e, ?_⟩⟩
      exact ⟨q, lock, remaining, m, hphase, hm, hconflict⟩
  | returned q => exact ⟨by rw [hphase]; nofun, _, .leave hphase⟩
  | releasing =>
    obtain ⟨lock, held, hcons⟩ := List.exists_cons_of_ne_nil hne
    exact ⟨by rw [hphase]; nofun, _, .unlock hphase (hcons.trans (List.nil_append _).symm)⟩

/-- Behind every client that waits there is one, among those it waits for directly or through others,
that can take a step. -/
theorem exists_canStep [Finite C] (hs : ∀ c, P.HoldsPlan (s c)) (hc : P.Waits s c) :
    ∃ d, Relation.TransGen (P.WaitsFor s) c d ∧ P.CanStep s d := by
  have hirrefl : Std.Irrefl (Relation.TransGen fun d c ↦ P.WaitsFor s c d) :=
    ⟨fun c h ↦ waitsFor_acyclic hs c (Relation.transGen_swap.1 h)⟩
  have hwf := Finite.wellFounded_of_trans_of_irrefl (Relation.TransGen fun d c ↦ P.WaitsFor s c d)
  induction c using hwf.induction with
  | _ c ih =>
    obtain ⟨d, hcd⟩ := hc
    by_cases hd : P.Waits s d
    · obtain ⟨e, hde, he⟩ := ih d (.single hcd) hd
      exact ⟨e, .head hcd hde, he⟩
    · exact ⟨d, .single hcd, canStep_of_waitsFor (hs d) hcd hd⟩

end Protocol

end OrderedLocks
