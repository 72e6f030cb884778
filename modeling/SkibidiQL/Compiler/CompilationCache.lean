import SkibidiQL.Base.RecencyStore
import SkibidiQL.Dataset.SnapshotPlan

/-!
# The compilation cache

The cache keeps its entries in a list, the most recently used first, and iterators into that list in a hash
multimap. Both are searched, changed and evicted from separately, and a counter has the bytes of the entries. As
long as the books are kept (`KeepsBooks`), the cache is a store that forgets what was used least recently.
-/

namespace SkibidiQL

open RecencyStore

/-! ### Hashing -/

/-- The bytes that `hashKey` appends, the lowest first. -/
def fingerprintBytes (schemaFingerprint : UInt64) : Bytes :=
  (List.range 8).map fun i ↦ (schemaFingerprint >>> (8 * i).toUInt64).toUInt8

/-- `CompilationCache::hashKey`. -/
def hashKey (source : Bytes) (schemaFingerprint : UInt64) : UInt64 :=
  (fingerprintBytes schemaFingerprint).foldl fnv1a64AppendByte (fnv1a64 source)

/-! ### The cache -/

/-- `CompilationCache::Entry`. -/
structure CacheEntry (π : Type) where
  source : Bytes
  schemaFingerprint : UInt64
  hash : UInt64
  value : π
  bytes : UInt64

/-- The entry as an item of a store. -/
def CacheEntry.item {π : Type} (entry : CacheEntry π) : Item (Bytes × UInt64) π :=
  ⟨(entry.source, entry.schemaFingerprint), entry.value, entry.bytes.toNat⟩

/-- `CompilationCache`. A node of the list has an address, and an iterator is the address of its node. -/
structure CompilationCache (π : Type) where
  maxEntries : UInt64
  maxBytes : UInt64
  bytes : UInt64 := 0
  hits : UInt64 := 0
  misses : UInt64 := 0
  evictions : UInt64 := 0
  lru : List (ℕ × CacheEntry π) := []
  entries : List (UInt64 × ℕ) := []
  /-- An address that no node has had. -/
  nextAddress : ℕ := 0

namespace CompilationCache

variable {π : Type}

/-- The node that an iterator points to. -/
def dereference (cache : CompilationCache π) (address : ℕ) : Option (CacheEntry π) :=
  (cache.lru.find? fun node ↦ node.1 = address).map Prod.snd

/-- Whether a candidate of the loop of `find` is the entry that it looks for. -/
def candidateEntry (cache : CompilationCache π) (source : Bytes) (schemaFingerprint : UInt64)
    (candidate : UInt64 × ℕ) : Option (ℕ × CacheEntry π) :=
  (cache.dereference candidate.2).bind fun entry ↦
    if entry.schemaFingerprint = schemaFingerprint ∧ entry.source = source then some (candidate.2, entry) else none

/-- `CompilationCache::find`. -/
def find (cache : CompilationCache π) (source : Bytes) (schemaFingerprint hash : UInt64) :
    Option (ℕ × CacheEntry π) :=
  (cache.entries.filter fun candidate ↦ candidate.1 = hash).findSome?
    (cache.candidateEntry source schemaFingerprint)

/-- The nodes of the list but for this one. -/
def others (cache : CompilationCache π) (node : ℕ × CacheEntry π) : List (ℕ × CacheEntry π) :=
  cache.lru.filter fun other ↦ other.1 ≠ node.1

/-- `CompilationCache::get`: the payload, and the cache after its node is moved to the front. -/
def get (cache : CompilationCache π) (source : Bytes) (schemaFingerprint : UInt64) :
    Option π × CompilationCache π :=
  match cache.find source schemaFingerprint (hashKey source schemaFingerprint) with
  | none => (none, { cache with misses := cache.misses + 1 })
  | some node => (some node.2.value, { cache with hits := cache.hits + 1, lru := node :: cache.others node })

/-- `CompilationCache::erase`. -/
def erase (cache : CompilationCache π) (node : ℕ × CacheEntry π) : CompilationCache π :=
  { cache with
    bytes := cache.bytes - node.2.bytes
    entries := cache.entries.erase (node.2.hash, node.1)
    lru := cache.others node }

/-- `CompilationCache::evictOldest`. -/
def evictOldest (cache : CompilationCache π) : CompilationCache π :=
  match cache.lru.getLast? with
  | none => cache
  | some node => { cache.erase node with evictions := cache.evictions + 1 }

/-- The condition of the loop of `put`. -/
def Over (cache : CompilationCache π) : Prop :=
  cache.maxEntries.toNat < cache.entries.length ∨ cache.maxBytes < cache.bytes

instance (cache : CompilationCache π) : Decidable cache.Over :=
  inferInstanceAs (Decidable (_ ∨ _))

/-- The loop of `put`, for as many rounds; on an empty cache that is over it would go on for ever. -/
def evictWhileOver : ℕ → CompilationCache π → Option (CompilationCache π)
  | 0, cache => if cache.Over then none else some cache
  | rounds + 1, cache => if cache.Over then evictWhileOver rounds cache.evictOldest else some cache

/-- An entry in front of the others. -/
def pushFront (cache : CompilationCache π) (entry : CacheEntry π) : CompilationCache π :=
  { cache with
    lru := (cache.nextAddress, entry) :: cache.lru
    bytes := cache.bytes + entry.bytes
    entries := (entry.hash, cache.nextAddress) :: cache.entries
    nextAddress := cache.nextAddress + 1 }

/-- The entry that `find` finds is erased before another is put in its place. -/
def eraseExisting (cache : CompilationCache π) (source : Bytes) (schemaFingerprint : UInt64) : CompilationCache π :=
  match cache.find source schemaFingerprint (hashKey source schemaFingerprint) with
  | some existing => cache.erase existing
  | none => cache

/-- `CompilationCache::put`, where `itemBytes` is what `estimateBytes` says; `none` when it does not return. -/
def put (cache : CompilationCache π) (source : Bytes) (schemaFingerprint : UInt64) (value : π)
    (itemBytes : UInt64) : Option (CompilationCache π) :=
  if cache.maxEntries = 0 ∨ cache.maxBytes = 0 then some cache
  else
    let cache := cache.eraseExisting source schemaFingerprint
    if cache.maxBytes < itemBytes then some cache
    else
      let cache := cache.pushFront
        { source, schemaFingerprint, hash := hashKey source schemaFingerprint, value, bytes := itemBytes }
      evictWhileOver cache.lru.length cache

/-- A `get` or a `put` under a source and a fingerprint, and its answer. -/
def serve (request : Request (Bytes × UInt64) π) (cache : CompilationCache π) :
    Option (Option π × CompilationCache π) :=
  match request with
  | .get key => some (cache.get key.1 key.2)
  | .put key payload size => (cache.put key.1 key.2 payload size.toUInt64).map fun next ↦ (some payload, next)

/-! ### Kept books -/

variable {cache : CompilationCache π} {node : ℕ × CacheEntry π}

/-- The entries as the items of a store. -/
def items (cache : CompilationCache π) : List (Item (Bytes × UInt64) π) :=
  cache.lru.map fun node ↦ node.2.item

/-- The limits of the store. -/
def limits (cache : CompilationCache π) : Limits :=
  ⟨cache.maxEntries.toNat, cache.maxBytes.toNat⟩

/-- What the multimap has for a node. -/
def mapped (node : ℕ × CacheEntry π) : UInt64 × ℕ :=
  (node.2.hash, node.1)

/-- The list and the multimap have the same entries, each once and under its hash, and the counter is their sum. -/
structure KeepsBooks (cache : CompilationCache π) : Prop where
  addresses : (cache.lru.map Prod.fst).Nodup
  fresh : ∀ node ∈ cache.lru, node.1 < cache.nextAddress
  hashes : ∀ node ∈ cache.lru, node.2.hash = hashKey node.2.source node.2.schemaFingerprint
  keys : (keys cache.items).Nodup
  entries : cache.entries.Perm (cache.lru.map mapped)
  bytes : cache.bytes.toNat = totalSize cache.items

theorem keepsBooks_empty (maxEntries maxBytes : UInt64) :
    KeepsBooks ({ maxEntries, maxBytes } : CompilationCache π) :=
  ⟨.nil, List.forall_mem_nil _, List.forall_mem_nil _, .nil, .nil, rfl⟩

/-- Two nodes with one address are one node. -/
theorem KeepsBooks.node_ext (h : cache.KeepsBooks) {other : ℕ × CacheEntry π} (hnode : node ∈ cache.lru)
    (hother : other ∈ cache.lru) (haddress : other.1 = node.1) : other = node :=
  List.inj_on_of_nodup_map h.addresses hother hnode haddress

/-- Two nodes with one key are one node. -/
theorem KeepsBooks.key_ext (h : cache.KeepsBooks) {other : ℕ × CacheEntry π} (hnode : node ∈ cache.lru)
    (hother : other ∈ cache.lru) (hkey : other.2.item.key = node.2.item.key) : other = node := by
  have hnodup := h.keys
  rw [RecencyStore.keys, items, List.map_map] at hnodup
  exact List.inj_on_of_nodup_map hnodup hother hnode hkey

/-- A node of the list is found under its address. -/
theorem KeepsBooks.dereference (h : cache.KeepsBooks) (hnode : node ∈ cache.lru) :
    cache.dereference node.1 = some node.2 := by
  rw [CompilationCache.dereference]
  cases hfind : cache.lru.find? fun other ↦ other.1 = node.1 with
  | none => simpa using List.find?_eq_none.1 hfind node hnode
  | some other =>
    have haddress : other.1 = node.1 := by simpa using List.find?_some hfind
    rw [h.node_ext hnode (List.mem_of_find?_eq_some hfind) haddress]
    rfl

/-- Of the candidates of the multimap, the one for a node is found to be the node. -/
theorem KeepsBooks.candidateEntry (h : cache.KeepsBooks) (hnode : node ∈ cache.lru) (source : Bytes)
    (schemaFingerprint : UInt64) : cache.candidateEntry source schemaFingerprint (mapped node) =
      if node.2.item.key = (source, schemaFingerprint) then some node else none := by
  show (cache.dereference node.1).bind _ = _
  rw [h.dereference hnode]
  refine if_congr ?_ rfl rfl
  rw [CacheEntry.item, Prod.mk.injEq]
  exact and_comm

/-- What `find` finds is the node with the key, collisions of the hash or not. -/
theorem KeepsBooks.find_eq_some (h : cache.KeepsBooks) {source : Bytes} {schemaFingerprint : UInt64} :
    cache.find source schemaFingerprint (hashKey source schemaFingerprint) = some node ↔
      node ∈ cache.lru ∧ node.2.item.key = (source, schemaFingerprint) := by
  rw [find]
  constructor
  · intro hfind
    obtain ⟨candidate, hcandidate, hentry⟩ := List.exists_of_findSome?_eq_some hfind
    obtain ⟨other, hother, rfl⟩ := List.mem_map.1 (h.entries.mem_iff.1 (List.mem_filter.1 hcandidate).1)
    rw [h.candidateEntry hother] at hentry
    split at hentry
    · rename_i hkey
      cases hentry
      exact ⟨hother, hkey⟩
    · cases hentry
  · rintro ⟨hnode, hkey⟩
    cases hfind : (cache.entries.filter fun candidate ↦ candidate.1 = hashKey source schemaFingerprint).findSome?
        (cache.candidateEntry source schemaFingerprint) with
    | none =>
      -- the node is among the candidates
      have hhash : (mapped node).1 = hashKey source schemaFingerprint := by
        obtain ⟨rfl, rfl⟩ := Prod.mk.injEq .. ▸ hkey
        exact h.hashes node hnode
      have hcandidate : mapped node ∈ cache.entries := h.entries.mem_iff.2 (List.mem_map_of_mem hnode)
      have hskipped := List.findSome?_eq_none_iff.1 hfind (mapped node)
        (List.mem_filter.2 ⟨hcandidate, decide_eq_true hhash⟩)
      rw [h.candidateEntry hnode, if_pos hkey] at hskipped
      cases hskipped
    | some found =>
      obtain ⟨candidate, hcandidate, hentry⟩ := List.exists_of_findSome?_eq_some hfind
      obtain ⟨other, hother, rfl⟩ := List.mem_map.1 (h.entries.mem_iff.1 (List.mem_filter.1 hcandidate).1)
      rw [h.candidateEntry hother] at hentry
      split at hentry
      · rename_i hkey'
        cases hentry
        rw [h.key_ext hnode hother (hkey'.trans hkey.symm)]
      · cases hentry

/-- `find` looks an item up. -/
theorem KeepsBooks.lookup_eq (h : cache.KeepsBooks) (source : Bytes) (schemaFingerprint : UInt64) :
    lookup (source, schemaFingerprint) cache.items =
      (cache.find source schemaFingerprint (hashKey source schemaFingerprint)).map fun node ↦ node.2.item := by
  cases hfind : cache.find source schemaFingerprint (hashKey source schemaFingerprint) with
  | none =>
    refine lookup_eq_none.2 fun hmem ↦ ?_
    obtain ⟨item, hitem, hkey⟩ := mem_keys.1 hmem
    obtain ⟨node, hnode, rfl⟩ := List.mem_map.1 hitem
    rw [h.find_eq_some.2 ⟨hnode, hkey⟩] at hfind
    cases hfind
  | some node =>
    obtain ⟨hnode, hkey⟩ := h.find_eq_some.1 hfind
    exact (lookup_iff h.keys).2 ⟨List.mem_map_of_mem hnode, hkey⟩

/-- The other nodes are the items under other keys. -/
theorem KeepsBooks.items_others (h : cache.KeepsBooks) (hnode : node ∈ cache.lru) :
    (cache.others node).map (fun other ↦ other.2.item) = without node.2.item.key cache.items := by
  rw [without, items, List.filter_map, others]
  congr 1
  refine List.filter_congr fun other hother ↦ decide_eq_decide.2 ?_
  exact not_congr ⟨fun haddress ↦ by rw [h.node_ext hnode hother haddress],
    fun hkey ↦ by rw [h.key_ext hnode hother hkey]⟩

/-- The list is a node and the others. -/
theorem KeepsBooks.perm_others (h : cache.KeepsBooks) (hnode : node ∈ cache.lru) :
    cache.lru.Perm (node :: cache.others node) := by
  have hcons : (node :: cache.others node).Nodup := by
    refine List.nodup_cons.2 ⟨fun hmem ↦ ?_, h.addresses.of_map.filter _⟩
    simpa using (List.mem_filter.1 hmem).2
  refine (List.perm_ext_iff_of_nodup h.addresses.of_map hcons).2 fun other ↦ ?_
  rw [List.mem_cons, others, List.mem_filter, decide_eq_true_iff]
  constructor
  · intro hother
    by_cases haddress : other.1 = node.1
    · exact .inl (h.node_ext hnode hother haddress)
    · exact .inr ⟨hother, haddress⟩
  · rintro (rfl | ⟨hother, -⟩)
    · exact hnode
    · exact hother

/-- Erasing a node takes its item out of the store. -/
theorem KeepsBooks.erase (h : cache.KeepsBooks) (hnode : node ∈ cache.lru) :
    (cache.erase node).KeepsBooks ∧ (cache.erase node).items = without node.2.item.key cache.items := by
  have hsublist : (cache.others node).Sublist cache.lru := List.filter_sublist
  have hitems : (cache.erase node).items = without node.2.item.key cache.items := h.items_others hnode
  have htotal := totalSize_without h.keys (List.mem_map_of_mem (f := fun node ↦ node.2.item) hnode)
  refine ⟨⟨(hsublist.map _).nodup h.addresses, fun other hother ↦ h.fresh other (hsublist.subset hother),
    fun other hother ↦ h.hashes other (hsublist.subset hother), ?_, ?_, ?_⟩, hitems⟩
  · rw [hitems]
    exact ((keys_without_sublist _ _).map Item.key).nodup h.keys
  · have hperm := (h.entries.trans ((h.perm_others hnode).map mapped)).erase (mapped node)
    rwa [List.map_cons, List.erase_cons_head] at hperm
  · have hbytes := h.bytes
    have hle : node.2.bytes ≤ cache.bytes := by
      rw [UInt64.le_iff_toNat_le, hbytes, ← htotal]
      exact Nat.le_add_right _ _
    rw [hitems]
    show (cache.bytes - node.2.bytes).toNat = _
    rw [UInt64.toNat_sub_of_le _ _ hle, hbytes, ← htotal]
    exact Nat.add_sub_cancel_left _ _

/-- The cache is over its limits when its items are. -/
theorem KeepsBooks.over_iff (h : cache.KeepsBooks) : cache.Over ↔ ¬Within cache.limits cache.items := by
  rw [Over, Within, not_and_or, not_le, not_le, h.entries.length_eq, List.length_map, UInt64.lt_iff_toNat_lt, h.bytes,
    items, List.length_map]
  rfl

/-- The oldest entry is evicted. -/
theorem KeepsBooks.evictOldest (h : cache.KeepsBooks) {front : List (ℕ × CacheEntry π)}
    (hlru : cache.lru = front ++ [node]) :
    cache.evictOldest.KeepsBooks ∧ cache.evictOldest.items = front.map fun node ↦ node.2.item := by
  have hnode : node ∈ cache.lru := by
    rw [hlru]
    exact List.mem_concat_self
  obtain ⟨hbooks, hitems⟩ := h.erase hnode
  have hevict : cache.evictOldest = { cache.erase node with evictions := cache.evictions + 1 } := by
    rw [CompilationCache.evictOldest, hlru, List.getLast?_concat]
  rw [hevict]
  refine ⟨⟨hbooks.addresses, hbooks.fresh, hbooks.hashes, hbooks.keys, hbooks.entries, hbooks.bytes⟩, ?_⟩
  refine hitems.trans ?_
  have hkeys := h.keys
  rw [items, hlru, List.map_append] at hkeys ⊢
  exact (without_middle hkeys).trans (List.append_nil _)

theorem evictOldest_limits (cache : CompilationCache π) : cache.evictOldest.limits = cache.limits := by
  rw [CompilationCache.evictOldest]
  split <;> rfl

/-- The loop of `put` comes to an end, with as many entries as the limits allow. -/
theorem KeepsBooks.evictWhileOver {rounds : ℕ} (h : cache.KeepsBooks) (hrounds : cache.lru.length ≤ rounds) :
    ∃ next, evictWhileOver rounds cache = some next ∧ next.KeepsBooks ∧ next.limits = cache.limits ∧
      next.items = keep cache.limits.count cache.limits.size cache.items := by
  -- by induction on the rounds, each of which evicts an entry
  induction rounds generalizing cache with
  | zero =>
    have hwithin : Within cache.limits cache.items := by
      rw [items, List.eq_nil_of_length_eq_zero (Nat.le_zero.1 hrounds)]
      exact ⟨Nat.zero_le _, Nat.zero_le _⟩
    refine ⟨cache, ?_, h, rfl, (keep_of_within hwithin).symm⟩
    rw [CompilationCache.evictWhileOver, if_neg (h.over_iff.not_left.2 hwithin)]
  | succ rounds ih =>
    rw [CompilationCache.evictWhileOver]
    by_cases hwithin : Within cache.limits cache.items
    · exact ⟨cache, if_neg (h.over_iff.not_left.2 hwithin), h, rfl, (keep_of_within hwithin).symm⟩
    · rw [if_pos (h.over_iff.2 hwithin)]
      rcases List.eq_nil_or_concat cache.lru with hlru | ⟨front, node, hlru⟩
      · refine absurd ?_ hwithin
        rw [items, hlru]
        exact ⟨Nat.zero_le _, Nat.zero_le _⟩
      · rw [List.concat_eq_append] at hlru
        obtain ⟨hbooks, hitems⟩ := h.evictOldest hlru
        have hlength : cache.evictOldest.lru.length ≤ rounds := by
          have hfront := congrArg List.length hitems
          rw [items, List.length_map, List.length_map] at hfront
          rw [hlru, List.length_append, List.length_singleton] at hrounds
          omega
        obtain ⟨next, hnext, hbooks', hlimits, hkept⟩ := ih hbooks hlength
        refine ⟨next, hnext, hbooks', hlimits.trans cache.evictOldest_limits, ?_⟩
        rw [hkept, evictOldest_limits, hitems]
        rw [items, hlru, List.map_append] at hwithin ⊢
        exact (keep_concat hwithin).symm

/-- A new entry in front, whose size the counter has room for. -/
theorem KeepsBooks.pushFront (h : cache.KeepsBooks) {entry : CacheEntry π}
    (hhash : entry.hash = hashKey entry.source entry.schemaFingerprint) (hkey : entry.item.key ∉ RecencyStore.keys cache.items)
    (hroom : totalSize cache.items + entry.bytes.toNat < 2 ^ 64) : (cache.pushFront entry).KeepsBooks := by
  refine ⟨List.nodup_cons.2 ⟨fun hmem ↦ ?_, h.addresses⟩, ?_, ?_, List.nodup_cons.2 ⟨hkey, h.keys⟩, h.entries.cons _, ?_⟩
  · obtain ⟨other, hother, haddress⟩ := List.mem_map.1 hmem
    exact (h.fresh other hother).ne haddress
  · rintro other (_ | ⟨_, hother⟩)
    · exact Nat.lt_succ_self _
    · exact (h.fresh other hother).trans (Nat.lt_succ_self _)
  · rintro other (_ | ⟨_, hother⟩)
    · exact hhash
    · exact h.hashes other hother
  · show (cache.bytes + entry.bytes).toNat = totalSize (entry.item :: cache.items)
    rw [UInt64.toNat_add, h.bytes, Nat.mod_eq_of_lt hroom, totalSize_cons, Nat.add_comm]
    rfl

/-- Erasing an entry takes out its item. -/
theorem KeepsBooks.eraseExisting (h : cache.KeepsBooks) (source : Bytes) (schemaFingerprint : UInt64) :
    (cache.eraseExisting source schemaFingerprint).KeepsBooks ∧
      (cache.eraseExisting source schemaFingerprint).items = without (source, schemaFingerprint) cache.items ∧
      (cache.eraseExisting source schemaFingerprint).limits = cache.limits := by
  rw [CompilationCache.eraseExisting]
  split
  · rename_i node hfind
    obtain ⟨hnode, hkey⟩ := h.find_eq_some.1 hfind
    obtain ⟨hbooks, hitems⟩ := h.erase hnode
    rw [hkey] at hitems
    exact ⟨hbooks, hitems, rfl⟩
  · rename_i hfind
    refine ⟨h, (without_of_not_mem (lookup_eq_none.1 ?_)).symm, rfl⟩
    rw [h.lookup_eq, hfind]
    rfl

/-- `get` answers with the payload of the item, which it brings to the front. -/
theorem KeepsBooks.get (h : cache.KeepsBooks) (source : Bytes) (schemaFingerprint : UInt64) :
    (cache.get source schemaFingerprint).1 = (lookup (source, schemaFingerprint) cache.items).map Item.payload ∧
      (cache.get source schemaFingerprint).2.KeepsBooks ∧
      (cache.get source schemaFingerprint).2.items = touch (source, schemaFingerprint) cache.items ∧
      (cache.get source schemaFingerprint).2.limits = cache.limits := by
  have hlookup := h.lookup_eq source schemaFingerprint
  rw [CompilationCache.get, touch]
  split
  · rename_i hfind
    rw [hlookup, hfind]
    exact ⟨rfl, ⟨h.addresses, h.fresh, h.hashes, h.keys, h.entries, h.bytes⟩, rfl, rfl⟩
  · rename_i node hfind
    obtain ⟨hnode, hkey⟩ := h.find_eq_some.1 hfind
    rw [hlookup, hfind]
    have hperm := (h.perm_others hnode).symm
    have hpermItems := hperm.map fun node ↦ node.2.item
    have hitems : (node :: cache.others node).map (fun node ↦ node.2.item) =
        node.2.item :: without (source, schemaFingerprint) cache.items := by
      rw [List.map_cons, h.items_others hnode, hkey]
    refine ⟨rfl, ⟨(hperm.map _).nodup_iff.2 h.addresses, fun other hother ↦ h.fresh other (hperm.subset hother),
      fun other hother ↦ h.hashes other (hperm.subset hother),
      (hpermItems.map Item.key).nodup_iff.2 h.keys, h.entries.trans (hperm.symm.map mapped),
      h.bytes.trans (hpermItems.map Item.size).sum_eq.symm⟩, hitems, rfl⟩

/-- `put` comes back, and stores the payload as far as the limits allow. -/
theorem KeepsBooks.put (h : cache.KeepsBooks) (source : Bytes) (schemaFingerprint : UInt64) (value : π)
    {size : ℕ} (hroom : totalSize cache.items + size < 2 ^ 64) :
    ∃ next, cache.put source schemaFingerprint value size.toUInt64 = some next ∧ next.KeepsBooks ∧
      next.items = store cache.limits ⟨(source, schemaFingerprint), value, size⟩ cache.items ∧
      next.limits = cache.limits := by
  have hsize : size.toUInt64.toNat = size := Nat.mod_eq_of_lt ((Nat.le_add_left _ _).trans_lt hroom)
  have hzero (limit : UInt64) : limit = 0 ↔ limit.toNat = 0 := UInt64.toNat_inj.symm
  obtain ⟨hbooks, hitems, hlimits⟩ := h.eraseExisting source schemaFingerprint
  rw [CompilationCache.put, store]
  simp only [hzero]
  split
  · rename_i hempty
    exact ⟨cache, rfl, h, (if_pos hempty).symm, rfl⟩
  · rename_i hempty
    rw [if_neg (show ¬(cache.limits.count = 0 ∨ cache.limits.size = 0) from hempty)]
    have hmaxBytes : (cache.eraseExisting source schemaFingerprint).maxBytes.toNat = cache.maxBytes.toNat :=
      congrArg Limits.size hlimits
    simp only [UInt64.lt_iff_toNat_lt, hsize, hmaxBytes]
    split
    · rename_i hlarge
      exact ⟨_, rfl, hbooks, hitems.trans (if_pos hlarge).symm, hlimits⟩
    · rename_i hfits
      rw [if_neg (show ¬cache.limits.size < size from hfits)]
      set entry : CacheEntry π :=
        { source, schemaFingerprint, hash := hashKey source schemaFingerprint, value, bytes := size.toUInt64 }
      have hitem : entry.item = ⟨(source, schemaFingerprint), value, size⟩ := by
        rw [CacheEntry.item, hsize]
      -- What was stored for the key is erased first, so the new entry is the only one of its key.
      have hkey : entry.item.key ∉ RecencyStore.keys (cache.eraseExisting source schemaFingerprint).items := by
        rw [hitems]
        intro hmem
        obtain ⟨item, hmem, hkey⟩ := mem_keys.1 hmem
        exact (mem_without.1 hmem).2 hkey
      have hhash : entry.hash = hashKey entry.source entry.schemaFingerprint := rfl
      have hpushed := hbooks.pushFront hhash hkey (by
        rw [hitems, hsize]
        exact (Nat.add_le_add_right (totalSize_le_of_sublist (keys_without_sublist _ _)) _).trans_lt hroom)
      obtain ⟨next, hnext, hbooks', hlimits', hkept⟩ := hpushed.evictWhileOver le_rfl
      refine ⟨next, hnext, hbooks', ?_, hlimits'.trans hlimits⟩
      rw [hkept]
      show keep (cache.eraseExisting source schemaFingerprint).limits.count
        (cache.eraseExisting source schemaFingerprint).limits.size
        (entry.item :: (cache.eraseExisting source schemaFingerprint).items) = _
      rw [hlimits, hitems, hitem]

/-- The cache serves requests as the store of its items does. -/
theorem KeepsBooks.serve (h : cache.KeepsBooks) {request : Request (Bytes × UInt64) π}
    (hroom : totalSize cache.items + request.size < 2 ^ 64) :
    ∃ answer next, serve request cache = some (answer, next) ∧ next.KeepsBooks ∧ next.limits = cache.limits ∧
      RecencyStore.serve cache.limits request cache.items = (answer, next.items) := by
  cases request with
  | get key =>
    obtain ⟨hanswer, hbooks, hitems, hlimits⟩ := h.get key.1 key.2
    refine ⟨(cache.get key.1 key.2).1, (cache.get key.1 key.2).2, rfl, hbooks, hlimits, ?_⟩
    rw [hanswer, hitems]
    rfl
  | put key payload size =>
    obtain ⟨next, hnext, hbooks, hitems, hlimits⟩ := h.put key.1 key.2 payload hroom
    refine ⟨some payload, next, ?_, hbooks, hlimits, ?_⟩
    · rw [CompilationCache.serve]
      exact congrArg (Option.map fun next ↦ (some payload, next)) hnext
    · rw [hitems]
      rfl

/-! ### Runs -/

/-- The sizes of the entries and of what is stored next can be counted. -/
def Counts (request : Request (Bytes × UInt64) π) (cache : CompilationCache π) : Prop :=
  totalSize cache.items + request.size < 2 ^ 64

/-- A cache with these limits that has kept its books. -/
structure IsSound (limits : Limits) (cache : CompilationCache π) : Prop where
  books : cache.KeepsBooks
  sound : Sound limits cache.items
  limits_eq : cache.limits = limits

variable {limits : Limits}

theorem isSound_empty (maxEntries maxBytes : UInt64) :
    IsSound ⟨maxEntries.toNat, maxBytes.toNat⟩ ({ maxEntries, maxBytes } : CompilationCache π) :=
  ⟨keepsBooks_empty _ _, ⟨.nil, ⟨Nat.zero_le _, Nat.zero_le _⟩, fun _ ↦ rfl⟩, rfl⟩

/-- A request that can be counted is answered, as the store of the items answers it. -/
theorem IsSound.serve (h : IsSound limits cache) {request : Request (Bytes × UInt64) π} (hcounts : cache.Counts request) :
    ∃ answer next, serve request cache = some (answer, next) ∧ IsSound limits next ∧
      RecencyStore.serve limits request cache.items = (answer, next.items) := by
  obtain ⟨hbooks, hsound, rfl⟩ := h
  obtain ⟨answer, next, hserve, hbooks', hlimits, hitems⟩ := hbooks.serve hcounts
  refine ⟨answer, next, hserve, ⟨hbooks', ?_, hlimits⟩, hitems⟩
  have hnext : (RecencyStore.serve cache.limits request cache.items).2 = next.items := by rw [hitems]
  rw [← hnext]
  exact hsound.serve request

/-- A run is answered, and leaves what the store has after it. -/
theorem runPartial_serve (maxEntries maxBytes : UInt64) {requests : List (Request (Bytes × UInt64) π)}
    (hcounts : RunMeets serve (fun request cache ↦ cache.Counts request) requests { maxEntries, maxBytes }) :
    ∃ answers cache, runPartial serve requests { maxEntries, maxBytes } = some (answers, cache) ∧
      IsSound ⟨maxEntries.toNat, maxBytes.toNat⟩ cache ∧
      cache.items = after ⟨maxEntries.toNat, maxBytes.toNat⟩ requests := by
  refine runPartial_invariant (I := fun requests _ cache ↦ IsSound ⟨maxEntries.toNat, maxBytes.toNat⟩ cache ∧
    cache.items = after ⟨maxEntries.toNat, maxBytes.toNat⟩ requests) ⟨isSound_empty _ _, rfl⟩ ?_ hcounts
  rintro before request answers cache - ⟨hsound, hitems⟩ hcount
  obtain ⟨answer, next, hserve, hnext, hitems'⟩ := hsound.serve hcount
  refine ⟨answer, next, hserve, hnext, ?_⟩
  rw [after_concat, ← hitems, hitems']

/-- With a byte limit below 2 ^ 63 everything can be counted. -/
theorem runMeets_counts {maxEntries maxBytes : UInt64} (hbytes : maxBytes.toNat < 2 ^ 63)
    {requests : List (Request (Bytes × UInt64) π)} (hsize : ∀ request ∈ requests, request.size < 2 ^ 63) :
    RunMeets serve (fun request cache ↦ cache.Counts request) requests { maxEntries, maxBytes } := by
  have hcounts (request : Request (Bytes × UInt64) π) (hrequest : request ∈ requests) (cache : CompilationCache π)
      (h : IsSound ⟨maxEntries.toNat, maxBytes.toNat⟩ cache) : cache.Counts request := by
    have htotal : totalSize cache.items ≤ maxBytes.toNat := h.sound.within.2
    have hrequest := hsize request hrequest
    rw [Counts]
    omega
  refine runMeets_of_invariant (isSound_empty maxEntries maxBytes) hcounts ?_
  intro request hrequest cache answer next h hserve
  obtain ⟨answer', next', hserve', hnext, -⟩ := h.serve (hcounts request hrequest cache h)
  cases hserve.symm.trans hserve'
  exact hnext

end CompilationCache

end SkibidiQL
