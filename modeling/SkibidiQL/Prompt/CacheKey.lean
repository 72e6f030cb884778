import SkibidiQL.Base.ListRules
import SkibidiQL.Catalog.JsonReads
import SkibidiQL.Prompt.Session

/-!
# The keys of the result cache

`contextCacheKey` writes the revision and the parts of a request with a separator byte in front of each part,
and nothing escapes a separator inside a part. A request that shows its context, its tab and its query
without a separator has its key for itself; with a separator in one of them, another request has the same
key.
-/

namespace SkibidiQL

open Bytes Json

/-- A request whose answer is cached. -/
inductive ContextRequest where
  | spill (statement : ContextQueryStmt)
  | explain (statement : ContextQueryStmt)
  | objects (context : Bytes)
deriving DecidableEq

namespace ContextRequest

/-- The view that the request asks for. -/
def view : ContextRequest → ContextView
  | spill statement => spillView statement
  | explain statement => explainView statement
  | objects context => objectsView context

/-- The key of the request. -/
def key (revision : UInt64) (request : ContextRequest) : Bytes :=
  contextCacheKey revision request.view.parts

/-- The texts that the user writes show no separator, where a part follows them. -/
def Unseparated : ContextRequest → Prop
  | spill statement | explain statement =>
    31 ∉ statement.context ∧ 31 ∉ statement.tab ∧ 31 ∉ statement.query
  | objects _ => True

end ContextRequest

/-! ### The text of a query -/

/-- The last part of the key of a query. -/
def receiptsText (receipts : Bool) : Bytes :=
  lit (if receipts then "receipts:on" else "receipts:off")

/-- The key of a query behind the statement kind. -/
def queryText (statement : ContextQueryStmt) : Bytes :=
  statement.context ++ 31 :: (statement.tab ++ 31 :: (statement.query ++ 31 ::
    (ofNat statement.tokenBudget ++ 31 :: receiptsText statement.receipts)))

theorem notMem_ofNat (n : Nat) : (31 : UInt8) ∉ ofNat n :=
  fun h ↦ absurd (isDigit_ofNat n 31 h) (by decide)

theorem ofNat_injective : Function.Injective ofNat := by
  intro m n h
  rw [← decimal_ofNat m, h, decimal_ofNat]

theorem notMem_receiptsText (receipts : Bool) : (31 : UInt8) ∉ receiptsText receipts := by
  cases receipts <;> decide

theorem receiptsText_injective : Function.Injective receiptsText := by
  rintro (_ | _) (_ | _) h <;> first | rfl | exact absurd h (by decide)

/-- A query has the separators between its parts and those in them. -/
theorem count_queryText (statement : ContextQueryStmt) : (queryText statement).count 31 =
    4 + statement.context.count 31 + statement.tab.count 31 + statement.query.count 31 := by
  have hbudget := List.count_eq_zero.2 (notMem_ofNat statement.tokenBudget)
  have hreceipts := List.count_eq_zero.2 (notMem_receiptsText statement.receipts)
  simp only [queryText, List.count_append, List.count_cons_self, hbudget, hreceipts]
  omega

/-- Without separators in the parts, the text tells the statement. -/
theorem eq_of_queryText {statement statement' : ContextQueryStmt}
    (h : 31 ∉ statement.context ∧ 31 ∉ statement.tab ∧ 31 ∉ statement.query)
    (heq : queryText statement' = queryText statement) : statement' = statement := by
  obtain ⟨hcontext, htab, hquery⟩ := h
  -- the other statement has as many separators, so none in its parts either
  have hcount := congrArg (List.count 31) heq
  rw [count_queryText, count_queryText, List.count_eq_zero.2 hcontext, List.count_eq_zero.2 htab,
    List.count_eq_zero.2 hquery] at hcount
  have hcontext' : 31 ∉ statement'.context := List.count_eq_zero.1 (by omega)
  have htab' : 31 ∉ statement'.tab := List.count_eq_zero.1 (by omega)
  have hquery' : 31 ∉ statement'.query := List.count_eq_zero.1 (by omega)
  obtain ⟨hc, heq⟩ := (List.append_cons_inj_of_first hcontext' hcontext).1 heq
  obtain ⟨ht, heq⟩ := (List.append_cons_inj_of_first htab' htab).1 heq
  obtain ⟨hq, heq⟩ := (List.append_cons_inj_of_first hquery' hquery).1 heq
  obtain ⟨hb, hr⟩ := (List.append_cons_inj_of_first (notMem_ofNat _) (notMem_ofNat _)).1 heq
  cases statement
  cases statement'
  rw [ContextQueryStmt.mk.injEq]
  exact ⟨hc, hq, ht, ofNat_injective hb, receiptsText_injective hr⟩

/-- A separator in one of the parts can be taken for the one behind it. -/
theorem exists_same_queryText {statement : ContextQueryStmt}
    (h : 31 ∈ statement.context ∨ 31 ∈ statement.tab ∨ 31 ∈ statement.query) :
    ∃ statement', statement' ≠ statement ∧ queryText statement' = queryText statement := by
  have hlonger {first second : Bytes} : first ≠ first ++ 31 :: second := fun heq ↦ by
    have := congrArg List.length heq
    rw [List.length_append, List.length_cons] at this
    omega
  rcases h with h | h | h
  · obtain ⟨first, second, hsplit⟩ := List.append_of_mem h
    refine ⟨{ statement with
      context := first
      tab := second
      query := statement.tab ++ 31 :: statement.query }, fun heq ↦ ?_, ?_⟩
    · exact hlonger ((congrArg ContextQueryStmt.context heq).trans hsplit)
    · simp only [queryText, hsplit, List.append_assoc, List.cons_append]
  · obtain ⟨first, second, hsplit⟩ := List.append_of_mem h
    refine ⟨{ statement with
      tab := first
      query := second ++ 31 :: statement.query }, fun heq ↦ ?_, ?_⟩
    · exact hlonger ((congrArg ContextQueryStmt.tab heq).trans hsplit)
    · simp only [queryText, hsplit, List.append_assoc, List.cons_append]
  · obtain ⟨first, second, hsplit⟩ := List.append_of_mem h
    refine ⟨{ statement with
      tab := statement.tab ++ 31 :: first
      query := second }, fun heq ↦ ?_, ?_⟩
    · exact (hlonger (congrArg ContextQueryStmt.tab heq).symm).elim
    · simp only [queryText, hsplit, List.append_assoc, List.cons_append]

/-! ### The key of a request -/

namespace ContextRequest

/-- The first part of the key. -/
def kind : ContextRequest → Bytes
  | spill _ => lit "spill"
  | explain _ => lit "explain"
  | objects _ => lit "objects"

/-- The other parts of the key. -/
def body : ContextRequest → Bytes
  | spill statement | explain statement => queryText statement
  | objects context => context

theorem notMem_kind (request : ContextRequest) : (31 : UInt8) ∉ request.kind := by
  cases request <;> simp only [kind] <;> decide

/-- A key is the revision, the kind and the rest. -/
theorem key_eq (revision : UInt64) (request : ContextRequest) :
    request.key revision = ofNat revision.toNat ++ 31 :: (request.kind ++ 31 :: request.body) := by
  have hquery (kind : String) (statement : ContextQueryStmt) :
      contextCacheKey revision (queryKeyParts kind statement) =
        ofNat revision.toNat ++ 31 :: (lit kind ++ 31 :: queryText statement) := by
    simp only [contextCacheKey, queryKeyParts, queryText, receiptsText, List.flatMap_cons, List.flatMap_nil,
      List.append_nil, List.cons_append]
  cases request with
  | spill statement => exact hquery "spill" statement
  | explain statement => exact hquery "explain" statement
  | objects context =>
    show contextCacheKey revision [lit "objects", context] = _
    simp only [contextCacheKey, List.flatMap_cons, List.flatMap_nil, List.append_nil, List.cons_append]
    rfl

/-- Keys are the same when revision, kind and rest are. -/
theorem key_eq_iff {revision revision' : UInt64} {request request' : ContextRequest} :
    request'.key revision' = request.key revision ↔
      revision' = revision ∧ request'.kind = request.kind ∧ request'.body = request.body := by
  rw [key_eq, key_eq, List.append_cons_inj_of_first (notMem_ofNat _) (notMem_ofNat _),
    List.append_cons_inj_of_first (notMem_kind _) (notMem_kind _), ofNat_injective.eq_iff,
    UInt64.toNat_inj]

/-- No other request, at any revision, has the key of a request exactly when its context, its tab and its
query show no separator. -/
theorem key_injective_iff (revision : UInt64) (request : ContextRequest) :
    (∀ revision' request', key revision' request' = key revision request →
      revision' = revision ∧ request' = request) ↔ request.Unseparated := by
  have hother {statement : ContextQueryStmt} (make : ContextQueryStmt → ContextRequest)
      (hmake : Function.Injective make) (hkind : ∀ s s', (make s).kind = (make s').kind)
      (hbody : ∀ s, (make s).body = queryText s)
      (h : ∀ revision' request', key revision' request' = key revision (make statement) →
        revision' = revision ∧ request' = make statement) :
      31 ∉ statement.context ∧ 31 ∉ statement.tab ∧ 31 ∉ statement.query := by
    by_contra hseparated
    rw [not_and_or, not_and_or, not_not, not_not, not_not] at hseparated
    obtain ⟨statement', hne, htext⟩ := exists_same_queryText hseparated
    have hsame := h revision (make statement') (key_eq_iff.2 ⟨rfl, hkind _ _, by rw [hbody, hbody, htext]⟩)
    exact hne (hmake hsame.2)
  constructor
  · intro h
    cases request with
    | spill statement => exact hother spill (fun _ _ ↦ spill.inj) (fun _ _ ↦ rfl) (fun _ ↦ rfl) h
    | explain statement => exact hother explain (fun _ _ ↦ explain.inj) (fun _ _ ↦ rfl) (fun _ ↦ rfl) h
    | objects context => trivial
  · intro hunseparated revision' request' h
    obtain ⟨hrevision, hkind, hbody⟩ := key_eq_iff.1 h
    refine ⟨hrevision, ?_⟩
    cases request <;> cases request' <;> simp only [kind] at hkind <;>
      first | exact absurd hkind (by decide) | skip
    · exact congrArg spill (eq_of_queryText hunseparated hbody)
    · exact congrArg explain (eq_of_queryText hunseparated hbody)
    · exact congrArg objects hbody

/-- Two queries for two tabs. -/
theorem key_shared : ¬∀ revision request revision' request',
    key revision' request' = key revision request → revision' = revision ∧ request' = request := by
  intro h
  have hsame := h 0 (spill { context := lit "c", tab := lit "a", query := 98 :: 31 :: lit "why" }) 0
    (spill { context := lit "c", tab := 97 :: 31 :: lit "b", query := lit "why" }) (by decide)
  exact absurd hsame.2 (by decide)

end ContextRequest

end SkibidiQL
