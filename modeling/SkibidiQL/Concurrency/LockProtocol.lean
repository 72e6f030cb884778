import SkibidiQL.Base.ListRules
import SkibidiQL.Base.OrderedLocks
import SkibidiQL.Concurrency.NativeLock

/-!
# The lock protocol of the engine

Any number of clients that call `acquireAll`, one after the other and each while it holds nothing, and
release their guards. The locks are taken in the order of their resources, so nobody waits in a circle.
The statements of the engine ask for a lock of the whole database among others, which makes a statement
that changes it run alone.
-/

namespace SkibidiQL

open Bytes OrderedLocks

variable {requests : List NativeLockRequest} {locks : List (Bytes × NativeLockMode)}

/-! ### What `acquireAll` takes -/

theorem Asks.perm {requests' : List NativeLockRequest} {resource : Bytes} (h : requests.Perm requests') :
    Asks requests resource ↔ Asks requests' resource := by
  simp only [Asks, h.mem_iff]

/-- `acquireAll` takes the locks in strictly increasing order. -/
theorem AcquireAll.sorted (h : AcquireAll requests locks) :
    locks.Pairwise fun a b ↦ compare a.1 b.1 = .lt := by
  obtain ⟨sorted, ⟨-, hsorted⟩, rfl⟩ := h
  exact List.pairwise_map.2 (merges_dedupe hsorted).sorted

/-- Each resource that is asked for is held once, in a mode that covers all requests for it. -/
def HoldsAsked (requests : List NativeLockRequest) (held : List (Bytes × NativeLockMode)) : Prop :=
  ∀ resource, resource ≠ [] → Asks requests resource →
    ∃ mode, held.filter (·.1 = resource) = [(resource, mode)] ∧
      ∀ request ∈ requests, request.resource = resource → mode.AtLeast request.mode

/-- What is acquired is what was asked for. -/
theorem AcquireAll.holdsAsked (h : AcquireAll requests locks) : HoldsAsked requests locks := by
  intro resource hne hasks
  have hincreasing := h.sorted
  obtain ⟨sorted, ⟨hperm, hsorted⟩, rfl⟩ := h
  have hmerges := merges_dedupe hsorted
  obtain ⟨mode, hmem⟩ := hmerges.exists_mem hne ((Asks.perm hperm).2 hasks)
  refine ⟨mode, ?_, fun request hrequest heq hexclusive ↦ ?_⟩
  · refine List.filter_eq_singleton (List.mem_map_of_mem hmem) (decide_eq_true rfl) ?_
    refine hincreasing.imp fun hlt hboth ↦ ?_
    rw [of_decide_eq_true hboth.1, of_decide_eq_true hboth.2, Std.ReflOrd.compare_self] at hlt
    exact nomatch hlt
  · exact ((hmerges.mem_iff _).1 hmem).2.2.2 ⟨request, hperm.mem_iff.2 hrequest, heq, hexclusive⟩

/-! ### The protocol -/

/-- The clients of `NativeLockManager`. -/
def lockProtocol : Protocol (List NativeLockRequest) Bytes NativeLockMode where
  plans := AcquireAll
  before r s := compare r s = .lt
  conflict := NativeLockMode.Conflict
  before_irrefl r h := by
    rw [Std.ReflOrd.compare_self] at h
    exact nomatch h
  before_trans := Std.TransCmp.lt_trans
  conflict_symm := Or.symm
  sorted := AcquireAll.sorted

/-- The state of `n` clients. -/
abbrev LockState (n : Nat) := State (Fin n) (List NativeLockRequest) Bytes NativeLockMode

variable {n : Nat} {s : LockState n} {c d : Fin n}

/-- A resource that one client holds exclusively is held by no other. -/
theorem notMem_held_of_exclusive (hs : lockProtocol.Reachable s) (hcd : c ≠ d) {r : Bytes}
    {m : NativeLockMode} (hc : (r, .exclusive) ∈ (s c).held) : (r, m) ∉ (s d).held :=
  fun hd ↦ hs.invariant.2 c d hcd r .exclusive m hc hd (.inl rfl)

/-- A client that has returned from `acquireAll` holds what it asked for. -/
theorem holdsAsked_of_returned (hs : lockProtocol.Reachable s)
    (hphase : (s c).phase = .returned requests) : HoldsAsked requests (s c).held := by
  have hc := hs.invariant.1 c
  unfold Protocol.HoldsPlan at hc
  rw [hphase] at hc
  exact AcquireAll.holdsAsked hc

/-- In every state that `n` clients reach: nobody waits for itself, even through others; behind every
client that waits there is one that it waits for, directly or through others, and that can take a step; a
resource that one client holds exclusively is held by no other; and a client that has returned from
`acquireAll` holds what it asked for. -/
theorem lockProtocol_correct (n : Nat) (s : LockState n) (hs : lockProtocol.Reachable s) :
    (∀ c, ¬Relation.TransGen (lockProtocol.WaitsFor s) c c) ∧
      (∀ c, lockProtocol.Waits s c →
        ∃ d, Relation.TransGen (lockProtocol.WaitsFor s) c d ∧ lockProtocol.CanStep s d) ∧
      (∀ c d, c ≠ d → ∀ r m, (r, .exclusive) ∈ (s c).held → (r, m) ∉ (s d).held) ∧
      ∀ c requests, (s c).phase = .returned requests → HoldsAsked requests (s c).held :=
  ⟨Protocol.waitsFor_acyclic hs.invariant.1, fun _ ↦ Protocol.exists_canStep hs.invariant.1,
    fun _ _ hcd _ _ ↦ notMem_held_of_exclusive hs hcd, fun _ _ ↦ holdsAsked_of_returned hs⟩

/-- A client that has taken its locks, and another one that waits for one of them. -/
theorem lockProtocol_correct_contended : ∃ s : LockState 2, lockProtocol.Waits s 1 ∧
    ∃ d, Relation.TransGen (lockProtocol.WaitsFor s) 1 d ∧ lockProtocol.CanStep s d := by
  have hplan : AcquireAll [⟨[116], .shared⟩, ⟨[], .shared⟩, ⟨[97], .shared⟩, ⟨[116], .exclusive⟩]
      [([97], .shared), ([116], .exclusive)] :=
    ⟨[⟨[], .shared⟩, ⟨[97], .shared⟩, ⟨[116], .exclusive⟩, ⟨[116], .shared⟩],
      ⟨by decide, by decide⟩, by decide⟩
  have hplan' : AcquireAll [⟨[116], .shared⟩] [([116], .shared)] :=
    ⟨[⟨[116], .shared⟩], ⟨by decide, by decide⟩, by decide⟩
  have hinit : lockProtocol.Reachable (Protocol.initial : LockState 2) := .init
  have hcall := hinit.update (c := 0) (.call rfl hplan)
  have hfirst := hcall.update (c := 0) (.lock rfl fun d m h ↦ by
    match d with
    | 0 => exact nomatch h
    | 1 => exact nomatch h)
  have hsecond := hfirst.update (c := 0) (.lock rfl fun d m h ↦ by
    match d with
    | 0 => exact absurd (List.mem_singleton.1 h) (by simp)
    | 1 => exact nomatch h)
  have hreturned := hsecond.update (c := 0) (.finish rfl)
  have hwaiting := hreturned.update (c := 1) (.call rfl hplan')
  refine ⟨_, (and_iff_left_of_imp ((lockProtocol_correct 2 _ hwaiting).2.1 1)).2 ?_⟩
  exact ⟨0, _, _, _, .exclusive, rfl, List.mem_append_right _ (List.mem_singleton_self _), .inl rfl⟩

/-! ### The locks of a statement -/

/-- The statements of the engine, with the tables they name. -/
inductive LockedStatement
  | select (fromTable : Bytes) (joins : List Bytes)
  | insert (table : Bytes)
  | update (table : Bytes)
  | delete (table : Bytes)
  | create (table : Bytes)
  | drop (table : Bytes)
  | createSnapshot (source : Option Bytes)
  | exportTorch | explainBatch | spillContext | explainContext
  | showTabs | showContextSchemas | showContextObjects
  | createContext | appendMemory | tagMemory | aliasTab | mergeTabs

namespace LockedStatement

/-- `statementMutatesPersistentState`. -/
def mutatesPersistentState : LockedStatement → Bool
  | create _ | drop _ | insert _ | update _ | delete _ | createSnapshot _ => true
  | createContext | appendMemory | tagMemory | aliasTab | mergeTabs => true
  | _ => false

/-- `scoped`. -/
def scopedResource (root resource : Bytes) : Bytes :=
  root ++ lit "|" ++ resource

/-- The request for a table, if it has a name. -/
def tableRequest (root name : Bytes) (mode : NativeLockMode) : List NativeLockRequest :=
  if name.isEmpty then [] else [⟨scopedResource root (lit "table:" ++ name), mode⟩]

/-- The requests of `acquireStatementLocks` behind the one for the database. -/
def partRequests (root : Bytes) : LockedStatement → List NativeLockRequest
  | select fromTable joins =>
    ⟨scopedResource root (lit "catalog"), .shared⟩ ::
      (fromTable :: joins).flatMap fun name ↦ tableRequest root name .shared
  | insert table | update table | delete table =>
    ⟨scopedResource root (lit "catalog"), .shared⟩ :: tableRequest root table .exclusive
  | create table | drop table =>
    ⟨scopedResource root (lit "catalog"), .exclusive⟩ :: tableRequest root table .exclusive
  | createSnapshot source =>
    ⟨scopedResource root (lit "catalog"), .exclusive⟩ ::
      source.elim [] fun name ↦ tableRequest root name .shared
  | exportTorch | explainBatch | spillContext | explainContext
  | showTabs | showContextSchemas | showContextObjects => [⟨scopedResource root (lit "catalog"), .shared⟩]
  | createContext | appendMemory | tagMemory | aliasTab | mergeTabs =>
    [⟨scopedResource root (lit "catalog"), .exclusive⟩]

/-- The requests of `acquireStatementLocks`, on a database at `root`. -/
def lockRequests (root : Bytes) (statement : LockedStatement) : List NativeLockRequest :=
  ⟨scopedResource root (lit "!database"), if statement.mutatesPersistentState then .exclusive else .shared⟩ ::
    statement.partRequests root

/-- Once it has its locks, a statement holds the one of the database, alone if it changes it. -/
theorem mem_held {root : Bytes} {statement : LockedStatement} {held : List (Bytes × NativeLockMode)}
    (h : HoldsAsked (statement.lockRequests root) held) : ∃ mode,
      (scopedResource root (lit "!database"), mode) ∈ held ∧
        (statement.mutatesPersistentState → mode = .exclusive) := by
  have hne : scopedResource root (lit "!database") ≠ [] := by
    rw [scopedResource, List.append_assoc]
    exact List.append_ne_nil_of_right_ne_nil _ (by simp [lit])
  obtain ⟨mode, hfilter, hmode⟩ := h _ hne ⟨_, List.mem_cons_self, rfl⟩
  refine ⟨mode, ?_, fun hmutates ↦ hmode _ List.mem_cons_self rfl (if_pos hmutates)⟩
  exact List.mem_of_mem_filter (hfilter ▸ List.mem_singleton_self _)

/-- A statement that changes the database runs while no other statement of that database does. -/
theorem mutating_alone (hs : lockProtocol.Reachable s) {root : Bytes}
    {statement statement' : LockedStatement}
    (hc : (s c).phase = .returned (statement.lockRequests root))
    (hd : (s d).phase = .returned (statement'.lockRequests root))
    (hmutates : statement.mutatesPersistentState) : c = d := by
  obtain ⟨mode, hheld, hmode⟩ := mem_held (holdsAsked_of_returned hs hc)
  obtain ⟨mode', hheld', -⟩ := mem_held (holdsAsked_of_returned hs hd)
  by_contra hcd
  rw [hmode hmutates] at hheld
  exact notMem_held_of_exclusive hs hcd hheld hheld'

/-- `CREATE CONTEXT`, alone. -/
theorem mutating_alone_createContext : ∃ s : LockState 2, lockProtocol.Reachable s ∧
    (s 0).phase = .returned (createContext.lockRequests (lit "/db")) ∧
    ∀ d statement', (s d).phase = .returned (lockRequests (lit "/db") statement') → 0 = d := by
  have hplan : AcquireAll (createContext.lockRequests (lit "/db"))
      [(lit "/db|!database", .exclusive), (lit "/db|catalog", .exclusive)] :=
    ⟨createContext.lockRequests (lit "/db"), ⟨.refl _, by decide⟩, by decide⟩
  have hinit : lockProtocol.Reachable (Protocol.initial : LockState 2) := .init
  have hcall := hinit.update (c := 0) (.call rfl hplan)
  have hfirst := hcall.update (c := 0) (.lock rfl fun d m h ↦ by
    fin_cases d <;> cases h)
  have hsecond := hfirst.update (c := 0) (.lock rfl fun d m h ↦ by
    fin_cases d
    · exact absurd (List.mem_singleton.1 h) (by simp [lit])
    · cases h)
  have hreturned := hsecond.update (c := 0) (.finish rfl)
  exact ⟨_, hreturned, rfl, fun d statement' hd ↦ mutating_alone hreturned rfl hd rfl⟩

end LockedStatement

end SkibidiQL
