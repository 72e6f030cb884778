import SkibidiQL.Base.Bytes
import Mathlib.Data.List.Induction

/-!
# The lock manager

`NativeLockManager::acquireAll` sorts the requests by resource, drops those without one, joins those of one
resource into one and takes the locks in that order. The mutexes of the registry are one for each resource,
so a lock is known by its resource.
-/

namespace SkibidiQL

open Bytes

/-- `NativeLockMode`. -/
inductive NativeLockMode
  | shared | exclusive
  deriving DecidableEq, Repr

/-- `NativeLockRequest`. -/
structure NativeLockRequest where
  resource : Bytes
  mode : NativeLockMode := .shared
  deriving DecidableEq, Repr

attribute [ext] NativeLockRequest

/-- `lock` waits for any holder, `lock_shared` for an exclusive one. -/
def NativeLockMode.Conflict (m m' : NativeLockMode) : Prop :=
  m = .exclusive ∨ m' = .exclusive

/-- The mode gives at least the rights of the other one. -/
def NativeLockMode.AtLeast (m m' : NativeLockMode) : Prop :=
  m' = .exclusive → m = .exclusive

theorem NativeLockMode.eq_iff {m m' : NativeLockMode} :
    m = m' ↔ (m = .exclusive ↔ m' = .exclusive) := by
  cases m <;> cases m' <;> simp

/-! ### The list of locks -/

/-- One round of the loop of `acquireAll` that builds `deduped`. -/
def dedupeStep (deduped : List NativeLockRequest) (request : NativeLockRequest) :
    List NativeLockRequest :=
  if request.resource.isEmpty then deduped
  else match deduped.getLast? with
    | some last =>
      if last.resource = request.resource then
        -- One lock for a resource, exclusive when any request for it is.
        if request.mode = .exclusive then deduped.dropLast ++ [{ last with mode := .exclusive }]
        else deduped
      else deduped ++ [request]
    | none => deduped ++ [request]

/-- `deduped`. -/
def dedupe (requests : List NativeLockRequest) : List NativeLockRequest :=
  requests.foldl dedupeStep []

/-- What `std::sort` can make of the requests: it does not keep the order of those with one resource. -/
def SortedByResource (requests sorted : List NativeLockRequest) : Prop :=
  sorted.Perm requests ∧
    sorted.Pairwise fun left right ↦ compare right.resource left.resource ≠ .lt

/-- The locks that `acquireAll` takes, in order. -/
def AcquireAll (requests : List NativeLockRequest) (locks : List (Bytes × NativeLockMode)) : Prop :=
  ∃ sorted, SortedByResource requests sorted ∧
    locks = (dedupe sorted).map fun request ↦ (request.resource, request.mode)

/-- Some request is for the resource. -/
def Asks (requests : List NativeLockRequest) (resource : Bytes) : Prop :=
  ∃ request ∈ requests, request.resource = resource

/-- Some request is for the resource alone. -/
def AsksExclusive (requests : List NativeLockRequest) (resource : Bytes) : Prop :=
  ∃ request ∈ requests, request.resource = resource ∧ request.mode = .exclusive

/-- What a list of requests is merged into: one lock for each resource, in increasing order, in the
strongest mode that was asked for. -/
structure Merges (requests deduped : List NativeLockRequest) : Prop where
  sorted : deduped.Pairwise fun left right ↦ compare left.resource right.resource = .lt
  mem_iff : ∀ lock, lock ∈ deduped ↔ lock.resource ≠ [] ∧ Asks requests lock.resource ∧
    (lock.mode = .exclusive ↔ AsksExclusive requests lock.resource)

variable {requests deduped before : List NativeLockRequest} {request last : NativeLockRequest}
  {resource : Bytes}

theorem asks_snoc :
    Asks (requests ++ [request]) resource ↔ Asks requests resource ∨ request.resource = resource := by
  simp only [Asks, List.mem_append, List.mem_singleton, or_and_right, exists_or, exists_eq_left]

/-- One request more asks exclusively for its resource when its mode is exclusive. -/
theorem asksExclusive_snoc : AsksExclusive (requests ++ [request]) resource ↔
    AsksExclusive requests resource ∨ request.resource = resource ∧ request.mode = .exclusive := by
  simp only [AsksExclusive, List.mem_append, List.mem_singleton, or_and_right, exists_or,
    exists_eq_left]

theorem AsksExclusive.asks (h : AsksExclusive requests resource) : Asks requests resource := by
  obtain ⟨r, hr, heq, -⟩ := h
  exact ⟨r, hr, heq⟩

namespace Merges

theorem nil : Merges [] [] where
  sorted := .nil
  mem_iff _ := iff_of_false List.not_mem_nil fun h ↦ nomatch h.2.1.choose_spec.1

/-- A resource that was asked for has a lock. -/
theorem exists_mem (h : Merges requests deduped) (hne : resource ≠ []) (hasks : Asks requests resource) :
    ∃ mode, ⟨resource, mode⟩ ∈ deduped := by
  by_cases hexclusive : AsksExclusive requests resource
  · exact ⟨.exclusive, (h.mem_iff _).2 ⟨hne, hasks, iff_of_true rfl hexclusive⟩⟩
  · exact ⟨.shared, (h.mem_iff _).2 ⟨hne, hasks, iff_of_false nofun hexclusive⟩⟩

/-- A request that changes neither the resources nor their modes. -/
theorem of_iff {requests' : List NativeLockRequest} (h : Merges requests deduped)
    (hasks : ∀ r, r ≠ [] → (Asks requests' r ↔ Asks requests r))
    (hexclusive : ∀ r, r ≠ [] → (AsksExclusive requests' r ↔ AsksExclusive requests r)) :
    Merges requests' deduped where
  sorted := h.sorted
  mem_iff lock := by
    rw [h.mem_iff]
    refine and_congr_right fun hne ↦ ?_
    rw [hasks _ hne, hexclusive _ hne]

/-- A request without a resource is dropped. -/
theorem skip (h : Merges requests deduped) (hempty : request.resource = []) :
    Merges (requests ++ [request]) deduped := by
  refine h.of_iff (fun r hne ↦ ?_) fun r hne ↦ ?_
  · rw [asks_snoc, hempty]
    exact or_iff_left hne.symm
  · rw [asksExclusive_snoc, hempty]
    exact or_iff_left fun h ↦ hne h.1.symm

/-- A request for a new resource is added at the end. -/
theorem snoc (h : Merges requests deduped) (hne : request.resource ≠ [])
    (hlt : ∀ lock ∈ deduped, compare lock.resource request.resource = .lt) :
    Merges (requests ++ [request]) (deduped ++ [request]) where
  sorted := by
    refine List.pairwise_append.2 ⟨h.sorted, List.pairwise_singleton _ _, ?_⟩
    intro lock hlock r hr
    rw [List.mem_singleton.1 hr]
    exact hlt lock hlock
  mem_iff lock := by
    have hnew : ¬Asks requests request.resource := by
      intro hasks
      obtain ⟨mode, hmem⟩ := h.exists_mem hne hasks
      have hself := hlt _ hmem
      rw [Std.ReflOrd.compare_self] at hself
      exact nomatch hself
    rw [List.mem_append, List.mem_singleton, h.mem_iff, asks_snoc, asksExclusive_snoc]
    by_cases heq : lock.resource = request.resource
    · have hlock : lock = request ↔ (lock.mode = .exclusive ↔ request.mode = .exclusive) := by
        rw [NativeLockRequest.ext_iff, and_iff_right heq, NativeLockMode.eq_iff]
      have hmode : ¬AsksExclusive requests request.resource := fun h ↦ hnew h.asks
      rw [hlock, heq]
      simp [hnew, hmode, hne]
    · have hlock : lock ≠ request := fun h ↦ heq (h ▸ rfl)
      rw [eq_comm] at heq
      simp [hlock, heq]

/-- An exclusive request for the last resource makes its lock exclusive. -/
theorem raise (h : Merges requests (before ++ [last])) (heq : last.resource = request.resource)
    (hmode : request.mode = .exclusive) :
    Merges (requests ++ [request]) (before ++ [{ last with mode := .exclusive }]) where
  sorted := by
    obtain ⟨hbefore, -, hlast⟩ := List.pairwise_append.1 h.sorted
    refine List.pairwise_append.2 ⟨hbefore, List.pairwise_singleton _ _, fun lock hlock r hr ↦ ?_⟩
    rw [List.mem_singleton.1 hr]
    exact hlast lock hlock last (List.mem_singleton_self _)
  mem_iff lock := by
    have hlast := (h.mem_iff last).1 (List.mem_append_right _ (List.mem_singleton_self _))
    have hbefore : ∀ lock ∈ before, lock.resource ≠ last.resource := by
      intro lock hlock hsame
      have hlt := (List.pairwise_append.1 h.sorted).2.2 lock hlock last (List.mem_singleton_self _)
      rw [hsame, Std.ReflOrd.compare_self] at hlt
      exact nomatch hlt
    have hmem := h.mem_iff lock
    rw [List.mem_append, List.mem_singleton] at hmem
    rw [List.mem_append, List.mem_singleton, asks_snoc, asksExclusive_snoc, ← heq]
    by_cases hsame : lock.resource = last.resource
    · have hnot : lock ∉ before := fun hlock ↦ hbefore lock hlock hsame
      have hlock : lock = { last with mode := .exclusive } ↔ lock.mode = .exclusive := by
        rw [NativeLockRequest.ext_iff, and_iff_right hsame]
      rw [hlock, hsame]
      simp [hnot, hmode, hlast.1]
    · have hold : lock ≠ last := fun h ↦ hsame (h ▸ rfl)
      have hlock : lock ≠ { last with mode := .exclusive } := fun h ↦ hsame (h ▸ rfl)
      rw [eq_comm] at hsame
      rw [or_iff_left hold] at hmem
      simp [hlock, hsame, hmem]

/-- One round of the loop, at a resource that is not in front of those before. -/
theorem step (h : Merges requests deduped)
    (hle : ∀ r ∈ requests, compare request.resource r.resource ≠ .lt) :
    Merges (requests ++ [request]) (dedupeStep deduped request) := by
  unfold dedupeStep
  by_cases hempty : request.resource = []
  · rw [if_pos (List.isEmpty_iff.2 hempty)]
    exact h.skip hempty
  rw [if_neg fun hnil ↦ hempty (List.isEmpty_iff.1 hnil)]
  -- Sorted requests for one resource stand together, so only the last lock can be the same.
  split
  · next last hlast =>
    obtain ⟨before, rfl⟩ := List.getLast?_eq_some_iff.1 hlast
    obtain ⟨-, hasks, -⟩ :=
      (h.mem_iff last).1 (List.mem_append_right _ (List.mem_singleton_self _))
    by_cases hsame : last.resource = request.resource
    · rw [if_pos hsame]
      -- A second request is dropped, except that an exclusive one raises a shared lock.
      split
      · next hexclusive =>
        rw [List.dropLast_concat]
        exact h.raise hsame hexclusive
      · next hshared =>
        refine h.of_iff (fun r _ ↦ ?_) fun r _ ↦ ?_
        · rw [asks_snoc]
          exact or_iff_left_of_imp fun heq ↦ heq ▸ hsame ▸ hasks
        · rw [asksExclusive_snoc]
          exact or_iff_left fun h ↦ hshared h.2
    · rw [if_neg hsame]
      have hlt : compare last.resource request.resource = .lt := by
        obtain ⟨r, hr, heq⟩ := hasks
        have hge := hle r hr
        rw [heq, (Std.OrientedOrd.eq_swap :
          compare request.resource last.resource = _)] at hge
        cases hcmp : compare last.resource request.resource with
        | lt => rfl
        | eq => exact absurd (Std.LawfulEqOrd.eq_of_compare hcmp) hsame
        | gt => exact absurd (by rw [hcmp]; rfl) hge
      refine h.snoc hempty fun lock hlock ↦ ?_
      rcases List.mem_append.1 hlock with hlock | hlock
      · exact Std.TransCmp.lt_trans ((List.pairwise_append.1 h.sorted).2.2 lock hlock last
          (List.mem_singleton_self _)) hlt
      · rw [List.mem_singleton.1 hlock]
        exact hlt
  · next hnone =>
    rw [List.getLast?_eq_none_iff] at hnone
    subst hnone
    exact h.snoc hempty fun _ h ↦ nomatch h

end Merges

/-- The loop of `acquireAll` merges the sorted requests. -/
theorem merges_dedupe {sorted : List NativeLockRequest}
    (hsorted : sorted.Pairwise fun left right ↦ compare right.resource left.resource ≠ .lt) :
    Merges sorted (dedupe sorted) := by
  induction sorted using List.reverseRecOn with
  | nil => exact .nil
  | append_singleton sorted request ih =>
    obtain ⟨hpre, -, hlast⟩ := List.pairwise_append.1 hsorted
    rw [dedupe, List.foldl_append]
    exact (ih hpre).step fun r hr ↦ hlast r hr request (List.mem_singleton_self _)

end SkibidiQL
