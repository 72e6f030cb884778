import SkibidiQL.Compiler.CompilationCache
import SkibidiQL.Syntax.Lexer

/-!
# Compiling with the cache

`compileFast` keeps what it compiles under the source and the fingerprint of the catalog. The parser, the optimizer
and the generator are parameters; the optimizer reads the tables of the catalog and nothing else of it.
-/

namespace SkibidiQL

open RecencyStore Bytes

/-! ### The fingerprint of a catalog -/

/-- `Catalog::recomputeFingerprint`, the fields of a column. -/
def columnFields (column : ColumnMeta) : List Bytes :=
  [column.name, column.type, lit (if column.primaryKey then "1" else "0"), lit (if column.notNull then "1" else "0"),
    column.fkTable, column.fkCol]

/-- `Catalog::recomputeFingerprint`, the fields of a snapshot. -/
def snapshotFields (snapshot : DatasetSnapshotMeta) : List Bytes :=
  [snapshot.queryText, snapshot.sourceTable, snapshot.schemaFingerprint, snapshot.tableVersion, snapshot.splitBy,
    ofNat snapshot.seed.toNat] ++ snapshot.features.flatMap (fun feature ↦ [feature.name, feature.spec]) ++
    [snapshot.label.name, snapshot.label.spec, ofNat snapshot.rows.length]

/-- `Catalog::recomputeFingerprint`, the fields of a context. -/
def contextFields (context : ConversationContextMeta) : List Bytes :=
  context.messages.flatMap (fun message ↦
    [ofNat message.id.toNat, message.speaker, message.text, message.tab] ++ message.tags ++ message.tagReasons) ++
  context.atoms.flatMap (fun atom ↦
    [atom.key, atom.value, atom.type, atom.status, atom.source, atom.invalidatedBy, atom.tab] ++ atom.tags ++
    [atom.extractorRule, atom.extractorConfidence, ofNat atom.sourceStart.toNat, ofNat atom.sourceEnd.toNat,
      atom.originalSnippet]) ++
  context.tabAliases.flatMap fun tabAlias ↦ [tabAlias.aliasTab, tabAlias.target]

/-- The lambda `append` of `recomputeFingerprint`. -/
def appendField (hash : UInt64) (value : Bytes) : UInt64 :=
  fnv1a64AppendByte (value.foldl fnv1a64AppendByte hash) 0xff

/-- `Catalog::schemaFingerprint`, which every change of the catalog has `recomputeFingerprint` compute. -/
def Catalog.schemaFingerprint (catalog : Catalog) : UInt64 :=
  (catalog.tables.toList.flatMap (fun entry ↦ entry.1 :: entry.2.columns.flatMap columnFields) ++
    catalog.snapshots.toList.flatMap (fun entry ↦ entry.1 :: snapshotFields entry.2) ++
    catalog.contexts.toList.flatMap fun entry ↦ entry.1 :: contextFields entry.2).foldl appendField
    1469598103934665603

/-! ### Compiling -/

/-- What the lexer, and what another stage of the compiler throws. -/
inductive CompileError where
  | lexer (error : LexerError)
  | other (message : Error)

/-- The stages of the compiler behind the lexer, over the syntax trees of statements. -/
structure CompilerStages (σ : Type) where
  parseAll : List Token → Except CompileError (List σ)
  changesSchema : σ → Bool
  optimize : NameMap TableMeta → σ → Except CompileError (σ × List Bytes)
  generate : σ → Except CompileError Bytes

/-- `struct CachedStatement`. -/
structure CachedStatement (σ : Type) where
  sql : Bytes
  optimizationNotes : List Bytes
  schemaChanging : Bool
  ast : σ

/-- `struct CachedCompilation`. -/
structure CachedCompilation (σ : Type) where
  statements : List (CachedStatement σ)

/-- `struct CompiledStatement`. -/
structure CompiledStatement (σ : Type) where
  ast : σ
  sql : Bytes
  notes : List Bytes

/-- `struct CompilationResult`. -/
structure CompilationResult (σ : Type) where
  tokens : List Token := []
  statements : List (CompiledStatement σ) := []
  cacheHit : Bool := false
  cacheable : Bool := false

/-- `struct FastCompilationResult`. -/
structure FastCompilationResult (σ : Type) where
  output : CachedCompilation σ
  detailed : CompilationResult σ := {}
  cacheHit : Bool := false
  cacheable : Bool := false

variable {σ : Type} (stages : CompilerStages σ)

/-- One round of the loop of `compileUncached`. -/
def compileStatement (tables : NameMap TableMeta) (ast : σ) :
    Except CompileError (CompiledStatement σ × CachedStatement σ) := do
  let schemaChanging := stages.changesSchema ast
  let (ast, notes) ← stages.optimize tables ast
  let sql ← stages.generate ast
  return ({ ast, sql, notes }, { sql, optimizationNotes := notes, schemaChanging, ast })

/-- `QueryCompiler::compileUncached`. -/
def compileUncached (source : Bytes) (catalog : Catalog) :
    Except CompileError (CompilationResult σ × CachedCompilation σ) := do
  let tokens ← (Lexer.tokenize source).mapError .lexer
  let statements ← stages.parseAll tokens
  let compiled ← statements.mapM (compileStatement stages catalog.tables)
  let schemaChanging := compiled.any fun statement ↦ statement.2.schemaChanging
  return ({ tokens, statements := compiled.map Prod.fst, cacheable := !schemaChanging && !compiled.isEmpty },
    { statements := compiled.map Prod.snd })

/-- A call of `compileFast`, with what `estimateBytes` would say of its compilation. -/
structure CompileCall where
  source : Bytes
  catalog : Catalog
  useCache : Bool := true
  itemBytes : ℕ

/-- `QueryCompiler::compileFast`; `none` when it does not return. -/
def compileFast (call : CompileCall) (cache : CompilationCache (CachedCompilation σ)) :
    Option (Except CompileError (FastCompilationResult σ) × CompilationCache (CachedCompilation σ)) :=
  let schemaFingerprint := call.catalog.schemaFingerprint
  let (cached, cache) := if call.useCache then cache.get call.source schemaFingerprint else (none, cache)
  match cached with
  | some output => some (.ok { output, cacheHit := true, cacheable := true }, cache)
  | none =>
    match compileUncached stages call.source call.catalog with
    | .error error => some (.error error, cache)
    | .ok (detailed, cacheValue) =>
      if call.useCache && detailed.cacheable then
        (cache.put call.source schemaFingerprint cacheValue call.itemBytes.toUInt64).map fun cache ↦
          (.ok { output := cacheValue, detailed, cacheable := detailed.cacheable }, cache)
      else some (.ok { output := cacheValue, detailed, cacheable := detailed.cacheable }, cache)

/-- The same call with the cache disabled. -/
def CompileCall.withoutCache (call : CompileCall) : CompileCall :=
  { call with useCache := false }

/-- The statements that a call returns. -/
def outputOf (result : Except CompileError (FastCompilationResult σ)) : Except CompileError (CachedCompilation σ) :=
  result.map FastCompilationResult.output

/-- The statements that the compiler has for the source. -/
def compiledOutput (call : CompileCall) : Except CompileError (CachedCompilation σ) :=
  (compileUncached stages call.source call.catalog).map Prod.snd

/-- With the cache disabled, a call compiles the source and leaves the cache. -/
theorem compileFast_withoutCache (call : CompileCall) (cache : CompilationCache (CachedCompilation σ)) :
    ∃ result, compileFast stages call.withoutCache cache = some (result, cache) ∧
      outputOf result = compiledOutput stages call := by
  cases hcompile : compileUncached stages call.source call.catalog with
  | error error =>
    refine ⟨.error error, ?_, ?_⟩
    · simp [compileFast, CompileCall.withoutCache, hcompile]
    · rw [compiledOutput, hcompile]
      rfl
  | ok compiled =>
    refine ⟨.ok { output := compiled.2, detailed := compiled.1, cacheable := compiled.1.cacheable }, ?_, ?_⟩
    · simp [compileFast, CompileCall.withoutCache, hcompile]
    · rw [compiledOutput, hcompile]
      rfl

/-- Without the cache every call compiles. -/
theorem runPartial_withoutCache (calls : List CompileCall) (cache : CompilationCache (CachedCompilation σ)) :
    ∃ results, runPartial (compileFast stages) (calls.map CompileCall.withoutCache) cache = some (results, cache) ∧
      results.map outputOf = calls.map (compiledOutput stages) := by
  induction calls with
  | nil => exact ⟨[], rfl, rfl⟩
  | cons call calls ih =>
    obtain ⟨result, hcall, houtput⟩ := compileFast_withoutCache stages call cache
    obtain ⟨results, hcalls, houtputs⟩ := ih
    refine ⟨result :: results, ?_, ?_⟩
    · rw [List.map_cons, runPartial, hcall]
      show (runPartial (compileFast stages) (calls.map CompileCall.withoutCache) cache >>= _) = _
      rw [hcalls]
      rfl
    · rw [List.map_cons, List.map_cons, houtput, houtputs]

/-! ### Transparency -/

/-- The catalogs of the calls have the same tables when they have the same fingerprint. -/
def FingerprintsTell (calls : List CompileCall) : Prop :=
  ∀ call ∈ calls, ∀ other ∈ calls, call.catalog.schemaFingerprint = other.catalog.schemaFingerprint →
    call.catalog.tables = other.catalog.tables

/-- What the cache has is what the compiler makes of the source, with every catalog that has the fingerprint. -/
def HasCompiled (calls : List CompileCall) (items : List (Item (Bytes × UInt64) (CachedCompilation σ))) : Prop :=
  ∀ item ∈ items, ∀ call ∈ calls, (call.source, call.catalog.schemaFingerprint) = item.key →
    compiledOutput stages call = .ok item.payload

/-- The sizes of the entries and of the compilation can be counted. -/
def CompileCall.Counts (call : CompileCall) (cache : CompilationCache (CachedCompilation σ)) : Prop :=
  totalSize cache.items + call.itemBytes < 2 ^ 64

variable {stages} {calls : List CompileCall} {cache : CompilationCache (CachedCompilation σ)} {limits : Limits}

/-- Calls with one source and fingerprint have one output. -/
theorem compiledOutput_congr (htell : FingerprintsTell calls) {call other : CompileCall} (hcall : call ∈ calls)
    (hother : other ∈ calls) (hsource : call.source = other.source)
    (hfingerprint : call.catalog.schemaFingerprint = other.catalog.schemaFingerprint) :
    compiledOutput stages call = compiledOutput stages other := by
  rw [compiledOutput, compiledOutput, compileUncached, compileUncached, hsource, htell call hcall other hother hfingerprint]

theorem hasCompiled_empty (maxEntries maxBytes : UInt64) :
    HasCompiled stages calls (CompilationCache.items { maxEntries, maxBytes }) :=
  List.forall_mem_nil _

theorem HasCompiled.of_mem {items rest : List (Item (Bytes × UInt64) (CachedCompilation σ))}
    (h : HasCompiled stages calls items) (hsub : ∀ item ∈ rest, item ∈ items) : HasCompiled stages calls rest :=
  fun item hitem ↦ h item (hsub item hitem)

/-- What a call compiles may be stored. -/
theorem HasCompiled.store {items : List (Item (Bytes × UInt64) (CachedCompilation σ))}
    (h : HasCompiled stages calls items) (htell : FingerprintsTell calls) {call : CompileCall} (hcall : call ∈ calls)
    {value : CachedCompilation σ} (hvalue : compiledOutput stages call = .ok value) (size : ℕ) :
    HasCompiled stages calls (store limits ⟨(call.source, call.catalog.schemaFingerprint), value, size⟩ items) := by
  intro item hmem other hother hkey
  rcases mem_of_mem_store hmem with rfl | hmem
  · obtain ⟨hsource, hfingerprint⟩ := Prod.mk.injEq .. ▸ hkey
    rw [compiledOutput_congr htell hother hcall hsource hfingerprint, hvalue]
  · exact h item hmem other hother hkey

/-- A call returns what the compiler has for the source, from the cache or not, and the cache stays true. -/
theorem compileFast_spec (h : cache.IsSound limits) (hcompiled : HasCompiled stages calls cache.items)
    (htell : FingerprintsTell calls) {call : CompileCall} (hcall : call ∈ calls) (hcounts : call.Counts cache) :
    ∃ result next, compileFast stages call cache = some (result, next) ∧ next.IsSound limits ∧
      HasCompiled stages calls next.items ∧ outputOf result = compiledOutput stages call := by
  by_cases huse : call.useCache
  · obtain ⟨hanswer, hbooks, hitems, hlimits⟩ := h.books.get call.source call.catalog.schemaFingerprint
    have hperm := touch_perm h.books.keys (call.source, call.catalog.schemaFingerprint)
    rw [← hitems] at hperm
    rw [compileFast, if_pos huse]
    generalize cache.get call.source call.catalog.schemaFingerprint = answered at *
    obtain ⟨cached, got⟩ := answered
    dsimp only at *
    have hsound : got.IsSound limits := by
      refine ⟨hbooks, ?_, hlimits.trans h.limits_eq⟩
      rw [hitems]
      exact h.sound.touch _
    have hcompiled' : HasCompiled stages calls got.items := hcompiled.of_mem fun item ↦ hperm.mem_iff.1
    -- A hit gives back what was stored for the key; a miss runs the stages.
    cases cached with
    | some output =>
      refine ⟨_, got, rfl, hsound, hcompiled', ?_⟩
      obtain ⟨item, hlookup, rfl⟩ := Option.map_eq_some_iff.1 hanswer.symm
      obtain ⟨hmem, hkey⟩ := lookup_eq_some hlookup
      exact (hcompiled item hmem call hcall hkey.symm).symm
    | none =>
      cases hcompile : compileUncached stages call.source call.catalog with
      | error error =>
        refine ⟨_, got, rfl, hsound, hcompiled', ?_⟩
        rw [compiledOutput, hcompile]
        rfl
      | ok compiled =>
        obtain ⟨detailed, value⟩ := compiled
        have hvalue : compiledOutput stages call = .ok value := by
          rw [compiledOutput, hcompile]
          rfl
        dsimp only
        split
        · -- the compilation is stored
          have htotal : totalSize got.items = totalSize cache.items := (hperm.map Item.size).sum_eq
          have hroom : totalSize got.items + call.itemBytes < 2 ^ 64 := htotal ▸ hcounts
          obtain ⟨next, hput, hbooks', hstored, hlimits'⟩ :=
            hbooks.put call.source call.catalog.schemaFingerprint value hroom
          rw [hput]
          refine ⟨_, next, rfl, ⟨hbooks', ?_, hlimits'.trans hsound.limits_eq⟩, ?_, hvalue.symm⟩
          · rw [hstored, hsound.limits_eq]
            exact hsound.sound.store _
          · rw [hstored]
            exact hcompiled'.store htell hcall hvalue _
        · exact ⟨_, got, rfl, hsound, hcompiled', hvalue.symm⟩
  · have hcallEq : call.withoutCache = call := by
      rw [CompileCall.withoutCache, ← Bool.eq_false_iff.2 huse]
    obtain ⟨result, hresult, houtput⟩ := compileFast_withoutCache stages call cache
    rw [hcallEq] at hresult
    exact ⟨result, cache, hresult, h, hcompiled, houtput⟩

/-- A run of calls returns, with what the compiler has for each source. -/
theorem runPartial_compileFast {maxEntries maxBytes : UInt64} (htell : FingerprintsTell calls)
    (hcounts : RunMeets (compileFast stages) CompileCall.Counts calls { maxEntries, maxBytes }) :
    ∃ results cache, runPartial (compileFast stages) calls { maxEntries, maxBytes } = some (results, cache) ∧
      results.map outputOf = calls.map (compiledOutput stages) := by
  have hrun := runPartial_invariant (I := fun before results cache ↦
    (cache.IsSound ⟨maxEntries.toNat, maxBytes.toNat⟩ ∧ HasCompiled stages calls cache.items) ∧
      results.map outputOf = before.map (compiledOutput stages))
    ⟨⟨CompilationCache.isSound_empty _ _, hasCompiled_empty _ _⟩, rfl⟩ ?_ hcounts
  · obtain ⟨results, cache, hrun, -, houtputs⟩ := hrun
    exact ⟨results, cache, hrun, houtputs⟩
  · rintro before call results cache hprefix ⟨⟨hsound, hcompiled⟩, houtputs⟩ hcount
    have hcall : call ∈ calls := hprefix.subset List.mem_concat_self
    obtain ⟨result, next, hresult, hsound', hcompiled', houtput⟩ := compileFast_spec hsound hcompiled htell hcall hcount
    refine ⟨result, next, hresult, ⟨hsound', hcompiled'⟩, ?_⟩
    rw [List.map_append, List.map_append, houtputs, List.map_singleton, List.map_singleton, houtput]

/-- With a byte limit below 2 ^ 63 everything can be counted. -/
theorem runMeets_callCounts {maxEntries maxBytes : UInt64} (hbytes : maxBytes.toNat < 2 ^ 63)
    (htell : FingerprintsTell calls) (hsize : ∀ call ∈ calls, call.itemBytes < 2 ^ 63) :
    RunMeets (compileFast stages) CompileCall.Counts calls { maxEntries, maxBytes } := by
  have hcounts (call : CompileCall) (hcall : call ∈ calls) (cache : CompilationCache (CachedCompilation σ))
      (h : cache.IsSound ⟨maxEntries.toNat, maxBytes.toNat⟩) : call.Counts cache := by
    have htotal : totalSize cache.items ≤ maxBytes.toNat := h.sound.within.2
    have hcall := hsize call hcall
    rw [CompileCall.Counts]
    omega
  refine runMeets_of_invariant (I := fun cache ↦ cache.IsSound ⟨maxEntries.toNat, maxBytes.toNat⟩ ∧
    HasCompiled stages calls cache.items) ⟨CompilationCache.isSound_empty _ _, hasCompiled_empty _ _⟩
    (fun call hcall cache h ↦ hcounts call hcall cache h.1) ?_
  rintro call hcall cache result next ⟨hsound, hcompiled⟩ hresult
  obtain ⟨result', next', hresult', hsound', hcompiled', -⟩ :=
    compileFast_spec hsound hcompiled htell hcall (hcounts call hcall cache hsound)
  cases hresult.symm.trans hresult'
  exact ⟨hsound', hcompiled'⟩

/-! ### The cache does what it is for -/

/-- A cache that is right after these requests: its books are kept within the limits, its entries are in the order
of their last use, `get` serves the last payload of a key that has been there since, and `put` drops the entries
that were used least recently, no more than it has to. -/
structure CompilationCache.IsRight {π : Type} (limits : Limits) (requests : List (Request (Bytes × UInt64) π))
    (cache : CompilationCache π) : Prop where
  books : cache.KeepsBooks
  entries_le : cache.entries.length ≤ limits.count
  bytes_le : cache.bytes.toNat ≤ limits.size
  recency : ByRecency requests.reverse cache.items
  get_iff : ∀ source schemaFingerprint payload, (cache.get source schemaFingerprint).1 = some payload ↔
    RecencyStore.Holds limits requests (source, schemaFingerprint) payload
  put : ∀ source schemaFingerprint value size, totalSize cache.items + size < 2 ^ 64 →
    ∃ next, cache.put source schemaFingerprint value size.toUInt64 = some next ∧
      (limits.count = 0 ∨ limits.size = 0 → next.items = []) ∧
      (limits.count ≠ 0 → limits.size ≠ 0 → limits.size < size →
        next.items = without (source, schemaFingerprint) cache.items) ∧
      (limits.count ≠ 0 → limits.size ≠ 0 → size ≤ limits.size →
        IsLongestWithin limits (⟨(source, schemaFingerprint), value, size⟩ ::
          without (source, schemaFingerprint) cache.items) next.items)

/-- A sound cache is right. -/
theorem CompilationCache.IsSound.isRight {π : Type} {requests : List (Request (Bytes × UInt64) π)}
    {cache : CompilationCache π} (h : cache.IsSound limits) (hitems : cache.items = after limits requests) :
    cache.IsRight limits requests := by
  obtain ⟨hbooks, hsound, rfl⟩ := h
  refine ⟨hbooks, ?_, ?_, ?_, fun source schemaFingerprint payload ↦ ?_, ?_⟩
  · rw [hbooks.entries.length_eq, List.length_map]
    exact (List.length_map _).symm.trans_le hsound.within.1
  · rw [hbooks.bytes]
    exact hsound.within.2
  · rw [hitems]
    exact byRecency_after _ _
  · rw [(hbooks.get source schemaFingerprint).1, hitems]
    exact lookup_after_iff requests
  · intro source schemaFingerprint value size hroom
    obtain ⟨next, hnext, -, hstored, -⟩ := hbooks.put source schemaFingerprint value hroom
    refine ⟨next, hnext, fun hzero ↦ ?_, fun hcount hsize hlarge ↦ ?_, fun hcount hsize hfits ↦ ?_⟩
    · rw [hstored, store, if_pos hzero, hsound.room hzero]
    · rw [hstored, store, if_neg (not_or.2 ⟨hcount, hsize⟩), if_pos hlarge]
    · rw [hstored, store, if_neg (not_or.2 ⟨hcount, hsize⟩), if_neg (Nat.not_lt.2 hfits)]
      exact isLongestWithin_keep _ _

/-- Every sequence of requests leaves a cache that is right, and no sequence of calls of `compileFast` can tell
whether the cache is enabled: each call returns what the compiler has for its source. -/
theorem compilationCache_right_and_transparent {π : Type} (stages : CompilerStages σ) (maxEntries maxBytes : UInt64)
    (requests : List (Request (Bytes × UInt64) π)) (calls : List CompileCall)
    (hcounts : RunMeets CompilationCache.serve (fun request cache ↦ cache.Counts request) requests
      { maxEntries, maxBytes })
    (hcallCounts : RunMeets (compileFast stages) CompileCall.Counts calls { maxEntries, maxBytes })
    (htell : FingerprintsTell calls) :
    (∃ answers cache, runPartial CompilationCache.serve requests { maxEntries, maxBytes } = some (answers, cache) ∧
      cache.items = after ⟨maxEntries.toNat, maxBytes.toNat⟩ requests ∧
      cache.IsRight ⟨maxEntries.toNat, maxBytes.toNat⟩ requests) ∧
    ∃ cached uncached cache cache', runPartial (compileFast stages) calls { maxEntries, maxBytes } = some (cached, cache) ∧
      runPartial (compileFast stages) (calls.map CompileCall.withoutCache) { maxEntries, maxBytes } =
        some (uncached, cache') ∧
      cached.map outputOf = uncached.map outputOf ∧ cached.map outputOf = calls.map (compiledOutput stages) := by
  constructor
  · obtain ⟨answers, cache, hrun, hsound, hitems⟩ := CompilationCache.runPartial_serve maxEntries maxBytes hcounts
    exact ⟨answers, cache, hrun, hitems, hsound.isRight hitems⟩
  · obtain ⟨cached, cache, hrun, houtputs⟩ := runPartial_compileFast htell hcallCounts
    obtain ⟨uncached, hrun', houtputs'⟩ := runPartial_withoutCache stages calls { maxEntries, maxBytes }
    exact ⟨cached, uncached, cache, _, hrun, hrun', houtputs.trans houtputs'.symm, houtputs⟩

/-- A compiler whose statements are their numbers of tokens. -/
def tokenCounter : CompilerStages ℕ where
  parseAll tokens := .ok [tokens.length]
  changesSchema _ := false
  optimize _ ast := .ok (ast, [])
  generate ast := .ok (ofNat ast)

/-- `slay 1;`, with a compilation of 60 bytes. -/
def slayOne : CompileCall :=
  ⟨lit "slay 1;", {}, true, 60⟩

/-- Two entries of the same size in a cache with room for one, and a source that is compiled twice. -/
theorem compilationCache_right_and_transparent_small :
    (∃ answers cache, runPartial CompilationCache.serve [.put (lit "a", 1) 5 60, .put (lit "b", 1) 7 60]
      { maxEntries := 4, maxBytes := 100 } = some (answers, cache) ∧
      cache.items = after ⟨4, 100⟩ [.put (lit "a", 1) 5 60, .put (lit "b", 1) 7 60] ∧
      cache.IsRight ⟨4, 100⟩ [.put (lit "a", 1) 5 60, .put (lit "b", 1) 7 60]) ∧
    ∃ cached uncached cache cache', runPartial (compileFast tokenCounter) [slayOne, slayOne]
        { maxEntries := 4, maxBytes := 100 } = some (cached, cache) ∧
      runPartial (compileFast tokenCounter) ([slayOne, slayOne].map CompileCall.withoutCache)
        { maxEntries := 4, maxBytes := 100 } = some (uncached, cache') ∧
      cached.map outputOf = uncached.map outputOf ∧
      cached.map outputOf = [slayOne, slayOne].map (compiledOutput tokenCounter) := by
  have htell : FingerprintsTell [slayOne, slayOne] := by
    intro call hcall other hother _
    simp only [List.mem_cons, List.not_mem_nil, or_false, or_self] at hcall hother
    rw [hcall, hother]
  exact compilationCache_right_and_transparent _ 4 100 _ _
    (CompilationCache.runMeets_counts (by decide) (by decide))
    (runMeets_callCounts (by decide) htell (by decide)) htell

end SkibidiQL
