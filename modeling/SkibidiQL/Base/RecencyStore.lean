import Mathlib
import SkibidiQL.Base.Simulation

/-!
# Stores that forget what was used least recently

A store keeps items under keys, the most recently used first, within a number of items and a total size. A stored
item replaces the one under its key, and the items at the end are dropped until the limits hold.
-/

namespace SkibidiQL.RecencyStore

/-- An item under its key. -/
structure Item (κ π : Type) where
  key : κ
  payload : π
  size : ℕ

/-- The limits of a store. -/
structure Limits where
  count : ℕ
  size : ℕ

/-- What a store is asked for. -/
inductive Request (κ π : Type) where
  | get (key : κ)
  | put (key : κ) (payload : π) (size : ℕ)

/-- The key that a request uses. -/
def Request.key {κ π : Type} : Request κ π → κ
  | get key => key
  | put key _ _ => key

/-- The size of what a request stores. -/
def Request.size {κ π : Type} : Request κ π → ℕ
  | get _ => 0
  | put _ _ size => size

/-- Whether the request stores under the key. -/
def Request.Puts {κ π : Type} (request : Request κ π) (key : κ) : Prop :=
  ∃ payload size, request = .put key payload size

variable {κ π : Type} {items rest : List (Item κ π)} {item : Item κ π} {key other : κ} {payload : π} {size : ℕ}
  {limits : Limits}

/-! ### Items -/

/-- The keys of the items. -/
def keys (items : List (Item κ π)) : List κ :=
  items.map Item.key

/-- The total size of the items. -/
def totalSize (items : List (Item κ π)) : ℕ :=
  (items.map Item.size).sum

@[simp]
theorem totalSize_nil : totalSize ([] : List (Item κ π)) = 0 :=
  rfl

@[simp]
theorem totalSize_cons : totalSize (item :: items) = item.size + totalSize items :=
  List.sum_cons

theorem totalSize_append : totalSize (items ++ rest) = totalSize items + totalSize rest := by
  rw [totalSize, List.map_append, List.sum_append]
  rfl

theorem totalSize_le_of_sublist (h : items.Sublist rest) : totalSize items ≤ totalSize rest :=
  (h.map Item.size).sum_le_sum fun _ _ ↦ Nat.zero_le _

/-- The items are few and small enough. -/
def Within (limits : Limits) (items : List (Item κ π)) : Prop :=
  items.length ≤ limits.count ∧ totalSize items ≤ limits.size

instance : Decidable (Within limits items) :=
  inferInstanceAs (Decidable (_ ∧ _))

theorem Within.of_sublist (h : Within limits rest) (hsub : items.Sublist rest) : Within limits items :=
  ⟨hsub.length_le.trans h.1, (totalSize_le_of_sublist hsub).trans h.2⟩

/-- As many items from the front as the limits allow. -/
def keep : ℕ → ℕ → List (Item κ π) → List (Item κ π)
  | count + 1, size, item :: items =>
    if item.size ≤ size then item :: keep count (size - item.size) items else []
  | _, _, _ => []

/-- The items that are kept are the most recent. -/
theorem keep_isPrefix (count size : ℕ) (items : List (Item κ π)) : keep count size items <+: items := by
  induction items generalizing count size with
  | nil => cases count <;> exact List.prefix_rfl
  | cons item items ih =>
    cases count with
    | zero => exact List.nil_prefix
    | succ count =>
      rw [keep]
      split
      · exact (List.prefix_cons_inj item).2 (ih _ _)
      · exact List.nil_prefix

/-- The items that are kept are within the limits. -/
theorem keep_within (limits : Limits) (items : List (Item κ π)) :
    Within limits (keep limits.count limits.size items) := by
  obtain ⟨count, size⟩ := limits
  induction items generalizing count size with
  | nil => cases count <;> exact ⟨Nat.zero_le _, Nat.zero_le _⟩
  | cons item items ih =>
    cases count with
    | zero => exact ⟨Nat.zero_le _, Nat.zero_le _⟩
    | succ count =>
      rw [keep]
      split
      · rename_i hsize
        obtain ⟨hcount, htotal⟩ := ih count (size - item.size)
        refine ⟨Nat.succ_le_succ hcount, ?_⟩
        show totalSize (item :: keep count (size - item.size) items) ≤ size
        rw [totalSize_cons]
        exact Nat.add_le_of_le_sub' hsize htotal
      · exact ⟨Nat.zero_le _, Nat.zero_le _⟩

/-- Nothing is dropped that the limits allow to keep. -/
theorem prefix_keep {limits : Limits} {front : List (Item κ π)} (hfront : front <+: items) (h : Within limits front) :
    front <+: keep limits.count limits.size items := by
  obtain ⟨count, size⟩ := limits
  induction items generalizing front count size with
  | nil =>
    rw [List.prefix_nil.1 hfront]
    exact List.nil_prefix
  | cons item items ih =>
    cases front with
    | nil => exact List.nil_prefix
    | cons first front =>
      obtain ⟨rfl, hrest⟩ := List.cons_prefix_cons.1 hfront
      obtain ⟨hcount, htotal⟩ : front.length + 1 ≤ count ∧ first.size + totalSize front ≤ size := h
      obtain ⟨n, rfl⟩ : ∃ n, count = n + 1 := ⟨count - 1, by omega⟩
      rw [keep, if_pos ((Nat.le_add_right _ _).trans htotal), List.prefix_cons_inj]
      exact ih hrest n (size - first.size) ⟨Nat.le_of_succ_le_succ hcount, Nat.le_sub_of_add_le' htotal⟩

/-- Items within the limits are kept. -/
theorem keep_of_within (h : Within limits items) : keep limits.count limits.size items = items :=
  (keep_isPrefix _ _ _).eq_of_length_le (prefix_keep List.prefix_rfl h).length_le

/-- When the limits are exceeded, the last item is not kept. -/
theorem keep_concat (h : ¬Within limits (items ++ [item])) :
    keep limits.count limits.size (items ++ [item]) = keep limits.count limits.size items := by
  have hprefix := keep_isPrefix limits.count limits.size (items ++ [item])
  have hwithin := keep_within limits (items ++ [item])
  refine (prefix_keep ?_ hwithin).eq_of_length_le
    (prefix_keep ((keep_isPrefix _ _ _).trans (List.prefix_append _ _)) (keep_within limits items)).length_le
  rcases List.prefix_concat_iff.1 hprefix with heq | hprefix
  · rw [heq] at hwithin
    exact absurd hwithin h
  · exact hprefix

/-- Of these items the front is kept, as many as the limits allow. -/
structure IsLongestWithin (limits : Limits) (items kept : List (Item κ π)) : Prop where
  front : kept <+: items
  within : Within limits kept
  longest : ∀ front, front <+: items → Within limits front → front <+: kept

theorem isLongestWithin_keep (limits : Limits) (items : List (Item κ π)) :
    IsLongestWithin limits items (keep limits.count limits.size items) :=
  ⟨keep_isPrefix _ _ _, keep_within _ _, fun _ ↦ prefix_keep⟩

/-! ### Requests -/

section Serve

variable [DecidableEq κ]

/-- The item under a key. -/
def lookup (key : κ) (items : List (Item κ π)) : Option (Item κ π) :=
  items.find? fun item ↦ item.key = key

/-- The items under other keys. -/
def without (key : κ) (items : List (Item κ π)) : List (Item κ π) :=
  items.filter fun item ↦ item.key ≠ key

/-- The items with the one under the key in front. -/
def touch (key : κ) (items : List (Item κ π)) : List (Item κ π) :=
  match lookup key items with
  | some item => item :: without key items
  | none => items

/-- The items after one is stored. -/
def store (limits : Limits) (item : Item κ π) (items : List (Item κ π)) : List (Item κ π) :=
  if limits.count = 0 ∨ limits.size = 0 then items
  else if limits.size < item.size then without item.key items
  else keep limits.count limits.size (item :: without item.key items)

/-- The answer to a request, and the items after it. -/
def serve (limits : Limits) (request : Request κ π) (items : List (Item κ π)) :
    Option π × List (Item κ π) :=
  match request with
  | .get key => ((lookup key items).map Item.payload, touch key items)
  | .put key payload size => (some payload, store limits ⟨key, payload, size⟩ items)

/-- The items after these requests to an empty store. -/
def after (limits : Limits) (requests : List (Request κ π)) : List (Item κ π) :=
  (runOps (serve limits) requests []).2

theorem after_concat (requests : List (Request κ π)) (request : Request κ π) :
    after limits (requests ++ [request]) = (serve limits request (after limits requests)).2 := by
  rw [after, runOps_append]
  rfl

omit [DecidableEq κ] in
theorem mem_keys : key ∈ keys items ↔ ∃ item ∈ items, item.key = key :=
  List.mem_map

theorem mem_without : item ∈ without key items ↔ item ∈ items ∧ item.key ≠ key := by
  simp [without]

theorem lookup_eq_some (h : lookup key items = some item) : item ∈ items ∧ item.key = key :=
  ⟨List.mem_of_find?_eq_some h, by simpa using List.find?_some h⟩

theorem lookup_eq_none : lookup key items = none ↔ key ∉ keys items := by
  simp [lookup, keys]

/-- Among items under different keys, lookup finds what is stored. -/
theorem lookup_iff (hnodup : (keys items).Nodup) : lookup key items = some item ↔ item ∈ items ∧ item.key = key := by
  refine ⟨lookup_eq_some, fun ⟨hmem, hkey⟩ ↦ ?_⟩
  cases hlookup : lookup key items with
  | none => exact absurd (mem_keys.2 ⟨item, hmem, hkey⟩) (lookup_eq_none.1 hlookup)
  | some found =>
    obtain ⟨hfound, hkey'⟩ := lookup_eq_some hlookup
    rw [List.inj_on_of_nodup_map hnodup hfound hmem (hkey'.trans hkey.symm)]

theorem keys_without_sublist (key : κ) (items : List (Item κ π)) : (without key items).Sublist items :=
  List.filter_sublist

theorem without_of_not_mem (h : key ∉ keys items) : without key items = items :=
  List.filter_eq_self.2 fun item hitem ↦ by
    simpa using fun hkey ↦ h (mem_keys.2 ⟨item, hitem, hkey⟩)

theorem without_append (key : κ) (items rest : List (Item κ π)) :
    without key (items ++ rest) = without key items ++ without key rest :=
  List.filter_append _ _

/-- Without the key of an item, the others are left. -/
theorem without_middle {front back : List (Item κ π)} (hnodup : (keys (front ++ item :: back)).Nodup) :
    without item.key (front ++ item :: back) = front ++ back := by
  rw [keys, List.map_append, List.map_cons, List.nodup_middle, List.nodup_cons, List.mem_append, not_or] at hnodup
  rw [without_append, without_of_not_mem hnodup.1.1, show item :: back = [item] ++ back from rfl, without_append,
    without_of_not_mem hnodup.1.2]
  simp [without]

/-- The size of an item counts once. -/
theorem totalSize_without (hnodup : (keys items).Nodup) (h : item ∈ items) :
    item.size + totalSize (without item.key items) = totalSize items := by
  obtain ⟨front, back, rfl⟩ := List.append_of_mem h
  rw [without_middle hnodup, totalSize_append, totalSize_append, totalSize_cons]
  omega

/-- Bringing an item to the front permutes the items. -/
theorem touch_perm (hnodup : (keys items).Nodup) (key : κ) : (touch key items).Perm items := by
  rw [touch]
  cases hlookup : lookup key items with
  | none => exact .refl _
  | some item =>
    obtain ⟨hmem, rfl⟩ := lookup_eq_some hlookup
    obtain ⟨front, back, rfl⟩ := List.append_of_mem hmem
    dsimp only
    rw [without_middle hnodup]
    exact List.perm_middle.symm

/-- An item put in front of the rest leaves every key once. -/
theorem keys_without_nodup (hnodup : (keys items).Nodup) : (keys (item :: without item.key items)).Nodup := by
  rw [keys, List.map_cons, List.nodup_cons]
  refine ⟨fun hmem ↦ ?_, ((keys_without_sublist item.key items).map Item.key).nodup hnodup⟩
  obtain ⟨other, hother, hkey⟩ := mem_keys.1 hmem
  exact (mem_without.1 hother).2 hkey

/-- The items are under different keys and within the limits; without room for an item there is none. -/
structure Sound (limits : Limits) (items : List (Item κ π)) : Prop where
  nodup : (keys items).Nodup
  within : Within limits items
  room : limits.count = 0 ∨ limits.size = 0 → items = []

/-- Storing an item keeps the store sound. -/
theorem Sound.store (h : Sound limits items) (item : Item κ π) : Sound limits (store limits item items) := by
  have hsub := keys_without_sublist item.key items
  rw [RecencyStore.store]
  split
  · exact h
  · rename_i hroom
    split
    · exact ⟨(hsub.map Item.key).nodup h.nodup, h.within.of_sublist hsub, fun hzero ↦ absurd hzero hroom⟩
    · exact ⟨((keep_isPrefix _ _ _).sublist.map Item.key).nodup (keys_without_nodup h.nodup), keep_within _ _,
        fun hzero ↦ absurd hzero hroom⟩

/-- Using an item keeps the store sound. -/
theorem Sound.touch (h : Sound limits items) (key : κ) : Sound limits (touch key items) := by
  have hperm := touch_perm h.nodup key
  refine ⟨(hperm.map Item.key).nodup_iff.2 h.nodup, ⟨hperm.length_eq.trans_le h.within.1, ?_⟩, fun hzero ↦ ?_⟩
  · rw [totalSize, (hperm.map Item.size).sum_eq]
    exact h.within.2
  · rw [h.room hzero] at hperm ⊢
    exact hperm.eq_nil

theorem Sound.serve (h : Sound limits items) (request : Request κ π) : Sound limits (serve limits request items).2 := by
  cases request with
  | get key => exact h.touch key
  | put key payload size => exact h.store _

/-- **The store is sound after any requests.** -/
theorem sound_after (limits : Limits) (requests : List (Request κ π)) : Sound limits (after limits requests) := by
  have hempty : Sound limits ([] : List (Item κ π)) :=
    ⟨List.Pairwise.nil, ⟨Nat.zero_le _, Nat.zero_le _⟩, fun _ ↦ rfl⟩
  exact runOps_invariant (fun request items h ↦ h.serve request) hempty requests

/-! ### Recency -/

/-- How many of the last requests, the last first, did not use the key. -/
def idle (key : κ) (recent : List (Request κ π)) : ℕ :=
  recent.findIdx fun request ↦ request.key = key

/-- The items are in the order of their last use. -/
def ByRecency (recent : List (Request κ π)) (items : List (Item κ π)) : Prop :=
  items.Pairwise fun item other ↦ idle item.key recent < idle other.key recent

theorem idle_cons_self (request : Request κ π) (recent : List (Request κ π)) :
    idle request.key (request :: recent) = 0 := by
  simp [idle, List.findIdx_cons]

theorem idle_cons_of_ne {request : Request κ π} (h : request.key ≠ key) (recent : List (Request κ π)) :
    idle key (request :: recent) = idle key recent + 1 := by
  simp [idle, List.findIdx_cons, h]

/-- A request to another key makes all items idle for one request more. -/
theorem ByRecency.cons {recent : List (Request κ π)} (h : ByRecency recent items) {request : Request κ π}
    (hkey : request.key ∉ keys items) : ByRecency (request :: recent) items := by
  refine h.imp_of_mem fun {item other} hitem hother hlt ↦ ?_
  rw [idle_cons_of_ne fun heq ↦ hkey (mem_keys.2 ⟨item, hitem, heq.symm⟩),
    idle_cons_of_ne fun heq ↦ hkey (mem_keys.2 ⟨other, hother, heq.symm⟩)]
  exact Nat.succ_lt_succ hlt

/-- The item that is used comes first. -/
theorem ByRecency.front {recent : List (Request κ π)} (h : ByRecency recent items) {request : Request κ π}
    (hkey : request.key = item.key) : ByRecency (request :: recent) (item :: without item.key items) := by
  have hothers : request.key ∉ keys (without item.key items) := fun hmem ↦ by
    obtain ⟨other, hother, heq⟩ := mem_keys.1 hmem
    exact (mem_without.1 hother).2 (heq.trans hkey)
  refine List.pairwise_cons.2 ⟨fun other hother ↦ ?_, ByRecency.cons (h.sublist (keys_without_sublist _ _)) hothers⟩
  rw [← hkey, idle_cons_self, idle_cons_of_ne fun heq ↦ hothers (mem_keys.2 ⟨other, hother, heq.symm⟩)]
  exact Nat.succ_pos _

/-- The items are in the order of their last requests. -/
theorem byRecency_after (limits : Limits) (requests : List (Request κ π)) :
    ByRecency requests.reverse (after limits requests) := by
  induction requests using List.reverseRecOn with
  | nil => exact .nil
  | append_singleton requests request ih =>
    rw [List.reverse_append, after_concat]
    show ByRecency (request :: requests.reverse) _
    cases request with
    | get key =>
      show ByRecency _ (touch key (after limits requests))
      rw [touch]
      cases hlookup : lookup key (after limits requests) with
      | none => exact ih.cons (lookup_eq_none.1 hlookup)
      | some item =>
        obtain ⟨-, rfl⟩ := lookup_eq_some hlookup
        exact ih.front rfl
    | put key payload size =>
      show ByRecency _ (store limits ⟨key, payload, size⟩ (after limits requests))
      have hfront : ByRecency (.put key payload size :: requests.reverse)
          ((⟨key, payload, size⟩ : Item κ π) :: without key (after limits requests)) := ih.front rfl
      rw [store]
      split
      · -- without room for an item the store is empty
        rename_i hzero
        rw [(sound_after limits requests).room hzero]
        exact .nil
      · split
        · exact (List.pairwise_cons.1 hfront).2
        · exact hfront.sublist (keep_isPrefix _ _ _).sublist

/-! ### What is served -/

/-- A stored item is new or was there. -/
theorem mem_of_mem_store {new : Item κ π} (hmem : item ∈ store limits new items) : item = new ∨ item ∈ items := by
  rw [store] at hmem
  split at hmem
  · exact .inr hmem
  · split at hmem
    · exact .inr (mem_without.1 hmem).1
    · exact (List.mem_cons.1 ((keep_isPrefix _ _ _).subset hmem)).imp_right fun h ↦ (mem_without.1 h).1

/-- An item under a key that the request does not store under was there before. -/
theorem mem_of_mem_serve (hsound : Sound limits items) {request : Request κ π}
    (hmem : item ∈ (serve limits request items).2) (hputs : ¬request.Puts item.key) : item ∈ items := by
  cases request with
  | get key => exact (touch_perm hsound.nodup key).mem_iff.1 hmem
  | put key payload size =>
    have hne : item ≠ ⟨key, payload, size⟩ := fun heq ↦ hputs ⟨payload, size, by rw [heq]⟩
    exact (mem_of_mem_store hmem).resolve_left hne

/-- Under the key of an item that is stored there is no older one. -/
theorem eq_of_mem_store (hsound : Sound limits items) {new : Item κ π} (hmem : item ∈ store limits new items)
    (hkey : item.key = new.key) : item = new := by
  rw [store] at hmem
  split at hmem
  · rename_i hzero
    rw [hsound.room hzero] at hmem
    cases hmem
  · split at hmem
    · exact absurd hkey (mem_without.1 hmem).2
    · exact (List.mem_cons.1 ((keep_isPrefix _ _ _).subset hmem)).resolve_right fun h ↦ (mem_without.1 h).2 hkey

/-- The last request that stored under the key had this payload, and the key has been in the store ever since. -/
def Holds (limits : Limits) (requests : List (Request κ π)) (key : κ) (payload : π) : Prop :=
  ∃ before later size, requests = before ++ .put key payload size :: later ∧
    (∀ request ∈ later, ¬request.Puts key) ∧
      ∀ middle, middle <+: later → key ∈ keys (after limits (before ++ .put key payload size :: middle))

/-- An item that is still there was put and not pushed out since. -/
theorem Holds.of_mem (requests : List (Request κ π)) (h : item ∈ after limits requests) :
    Holds limits requests item.key item.payload := by
  induction requests using List.reverseRecOn with
  | nil => cases h
  | append_singleton requests request ih =>
    have hpresent : item.key ∈ keys (after limits (requests ++ [request])) := mem_keys.2 ⟨item, h, rfl⟩
    rw [after_concat] at h
    have hsound := sound_after limits requests
    by_cases hputs : request.Puts item.key
    · obtain ⟨payload, size, rfl⟩ := hputs
      have heq : item = ⟨item.key, payload, size⟩ := eq_of_mem_store hsound h rfl
      have hpayload : item.payload = payload := congrArg Item.payload heq
      rw [hpayload]
      refine ⟨requests, [], size, rfl, List.forall_mem_nil _, fun middle hmiddle ↦ ?_⟩
      rwa [List.prefix_nil.1 hmiddle]
    · -- the item was there before
      obtain ⟨before, later, size, rfl, hlater, hkept⟩ := ih (mem_of_mem_serve hsound h hputs)
      refine ⟨before, later ++ [request], size, by rw [List.append_assoc]; rfl, ?_, fun middle hmiddle ↦ ?_⟩
      · rw [List.forall_mem_append, List.forall_mem_singleton]
        exact ⟨hlater, hputs⟩
      · rcases List.prefix_concat_iff.1 hmiddle with rfl | hmiddle
        · rwa [List.append_assoc] at hpresent
        · exact hkept middle hmiddle

/-- An item that the store holds is found. -/
theorem Holds.lookup {requests : List (Request κ π)} (h : Holds limits requests key payload) :
    (lookup key (after limits requests)).map Item.payload = some payload := by
  obtain ⟨before, later, size, rfl, hlater, hkept⟩ := h
  -- at every time since, what is under the key has the payload
  suffices hall : ∀ item ∈ after limits (before ++ .put key payload size :: later), item.key = key →
      item.payload = payload by
    cases hlookup : RecencyStore.lookup key (after limits (before ++ .put key payload size :: later)) with
    | none => exact absurd (hkept later List.prefix_rfl) (lookup_eq_none.1 hlookup)
    | some item =>
      obtain ⟨hmem, hkey⟩ := lookup_eq_some hlookup
      exact congrArg some (hall item hmem hkey)
  induction later using List.reverseRecOn with
  | nil =>
    intro item hmem hkey
    rw [after_concat] at hmem
    rw [eq_of_mem_store (sound_after limits before) hmem hkey]
  | append_singleton later request ih =>
    intro item hmem hkey
    rw [List.forall_mem_append, List.forall_mem_singleton] at hlater
    rw [show before ++ Request.put key payload size :: (later ++ [request]) =
      (before ++ .put key payload size :: later) ++ [request] by rw [List.append_assoc]; rfl, after_concat] at hmem
    exact ih hlater.1 (fun middle hmiddle ↦ hkept middle (hmiddle.trans (List.prefix_append _ _))) item
      (mem_of_mem_serve (sound_after _ _) hmem (hkey ▸ hlater.2)) hkey

/-- The store serves the last payload under a key, as long as it has been there ever since. -/
theorem lookup_after_iff (requests : List (Request κ π)) :
    (lookup key (after limits requests)).map Item.payload = some payload ↔ Holds limits requests key payload := by
  refine ⟨fun h ↦ ?_, Holds.lookup⟩
  obtain ⟨item, hlookup, rfl⟩ := Option.map_eq_some_iff.1 h
  obtain ⟨hmem, rfl⟩ := lookup_eq_some hlookup
  exact .of_mem requests hmem

end Serve

end SkibidiQL.RecencyStore
