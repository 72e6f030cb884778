import Mathlib.Logic.Function.Basic
import Mathlib.Logic.Relation

/-!
# Undo logs

A store is changed key after key, and before the first change of a key its value goes to a log of images.
Putting the images back gives the store as it was, wherever the changes stopped, and putting them back may
itself be stopped and begun again.
-/

namespace UndoLog

variable {κ α : Type} [DecidableEq κ]

/-- The store with the images put back, in the order of the log. -/
def restore (store : κ → α) (images : List (κ × α)) : κ → α :=
  images.foldl (fun store image ↦ Function.update store image.1 image.2) store

/-- The keys of the images. -/
def keys (images : List (κ × α)) : List κ :=
  images.map Prod.fst

omit [DecidableEq κ] in
/-- A key is without an image when no image is its own. -/
theorem not_mem_keys_cons {image : κ × α} {images : List (κ × α)} {k : κ} :
    k ∉ keys (image :: images) ↔ k ≠ image.1 ∧ k ∉ keys images := by
  rw [keys, List.map_cons, List.mem_cons, not_or]
  rfl

/-- The store with one image put back, away from its key and under it. -/
theorem update_congr {store store' : κ → α} {image : κ × α} {k : κ} (h : k ≠ image.1 → store k = store' k) :
    Function.update store image.1 image.2 k = Function.update store' image.1 image.2 k := by
  by_cases heq : k = image.1
  · rw [heq, Function.update_self, Function.update_self]
  · rw [Function.update_of_ne heq, Function.update_of_ne heq, h heq]

/-! ### Putting back -/

/-- A key without an image keeps its value. -/
theorem restore_of_not_mem {images : List (κ × α)} {k : κ} (h : k ∉ keys images) (store : κ → α) :
    restore store images k = store k := by
  induction images generalizing store with
  | nil => rfl
  | cons image images ih =>
    obtain ⟨hne, hrest⟩ := not_mem_keys_cons.1 h
    exact (ih hrest _).trans (Function.update_of_ne hne _ _)

/-- What the store held under the keys of the images does not matter. -/
theorem restore_congr {images : List (κ × α)} {store store' : κ → α}
    (h : ∀ k ∉ keys images, store k = store' k) : restore store images = restore store' images := by
  induction images generalizing store store' with
  | nil => exact funext fun k ↦ h k List.not_mem_nil
  | cons image images ih =>
    exact ih fun k hk ↦ update_congr fun hne ↦ h k (not_mem_keys_cons.2 ⟨hne, hk⟩)

/-- Images of the store as it was, put back over one that differs under their keys only. -/
theorem restore_eq {images : List (κ × α)} {store before : κ → α}
    (himages : ∀ image ∈ images, before image.1 = image.2)
    (hagree : ∀ k ∉ keys images, store k = before k) : restore store images = before := by
  rw [restore_congr hagree]
  clear hagree
  induction images with
  | nil => rfl
  | cons image images ih =>
    have hsame : Function.update before image.1 image.2 = before := by
      rw [← himages image List.mem_cons_self, Function.update_eq_self]
    rw [restore, List.foldl_cons, hsame]
    exact ih fun image' hmem ↦ himages image' (List.mem_cons_of_mem _ hmem)

/-- Under the key of an image the store is as it was, whatever it has become elsewhere. -/
theorem restore_of_mem {images : List (κ × α)} {before : κ → α} {k : κ}
    (himages : ∀ image ∈ images, before image.1 = image.2) (h : k ∈ keys images) (store : κ → α) :
    restore store images k = before k := by
  have hmixed : restore store images = fun k ↦ if k ∈ keys images then before k else store k := by
    refine restore_eq (fun image hmem ↦ ?_) fun k hk ↦ (if_neg hk).symm
    rw [if_pos (show image.1 ∈ keys images from List.mem_map_of_mem hmem)]
    exact himages image hmem
  exact (congrFun hmixed k).trans (if_pos h)

/-! ### Logging ahead of writing -/

/-- A store and the images logged so far. -/
structure State (κ α : Type) where
  store : κ → α
  images : List (κ × α) := []

/-- A key is logged once, and written only when it has been logged. -/
inductive Step : State κ α → State κ α → Prop where
  | log {s : State κ α} (k : κ) (h : k ∉ keys s.images) : Step s { s with images := s.images ++ [(k, s.store k)] }
  | write {s : State κ α} (k : κ) (v : α) (h : k ∈ keys s.images) :
    Step s { s with store := Function.update s.store k v }

/-- The images are of the store as it was, and nothing else has been written. -/
structure Undoable (before : κ → α) (s : State κ α) : Prop where
  images : ∀ image ∈ s.images, before image.1 = image.2
  agree : ∀ k ∉ keys s.images, s.store k = before k

omit [DecidableEq κ] in
theorem Undoable.start (before : κ → α) : Undoable before ⟨before, []⟩ :=
  ⟨List.forall_mem_nil _, fun _ _ ↦ rfl⟩

/-- A step stays undoable. -/
theorem Undoable.step {before : κ → α} {s s' : State κ α} (h : Undoable before s) (hstep : Step s s') :
    Undoable before s' := by
  cases hstep with
  | log k hk =>
    constructor
    · intro image hmem
      rcases List.mem_append.1 hmem with hmem | hmem
      · exact h.images image hmem
      · rw [List.mem_singleton.1 hmem]
        exact (h.agree k hk).symm
    · intro k' hk'
      refine h.agree k' fun hmem ↦ hk' ?_
      rw [keys, List.map_append]
      exact List.mem_append_left _ hmem
  | write k v hk =>
    refine ⟨h.images, fun k' hk' ↦ ?_⟩
    have hne : k' ≠ k := fun heq ↦ hk' (heq ▸ hk)
    exact (Function.update_of_ne hne _ _).trans (h.agree k' hk')

/-- **Restoring the images brings the store back.** -/
theorem Undoable.restore {before : κ → α} {s : State κ α} (h : Undoable before s) :
    restore s.store s.images = before :=
  restore_eq h.images h.agree

end UndoLog
