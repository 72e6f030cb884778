import Mathlib

/-!
# Lists in step

Rules for two lists that are related entry by entry, for lists split at an element, and for the element of the
greatest key.
-/

namespace List

variable {α β : Type} {R : α → β → Prop} {l : List α} {m : List β} {p : α → Bool} {q : β → Bool}

/-- Where one predicate implies the other, it holds at most as often. -/
theorem Forall₂.countP_le (h : Forall₂ R l m) (himp : ∀ a b, R a b → q b → p a) :
    m.countP q ≤ l.countP p := by
  induction h with
  | nil => exact Nat.le_refl _
  | @cons a b l m hab _ ih =>
    rw [countP_cons, countP_cons]
    by_cases hq : q b
    · rw [if_pos hq, if_pos (himp a b hab hq)]
      exact Nat.add_le_add_right ih 1
    · rw [if_neg hq]
      exact Nat.le_trans ih (Nat.le_add_right _ _)

/-- Where it holds as often, it holds at the same entries. -/
theorem Forall₂.imp_of_countP_le (h : Forall₂ R l m) (himp : ∀ a b, R a b → q b → p a)
    (hcount : l.countP p ≤ m.countP q) : Forall₂ (fun a b ↦ R a b ∧ (p a → q b)) l m := by
  induction h with
  | nil => exact .nil
  | @cons a b l m hab hlm ih =>
    have hle := hlm.countP_le himp
    rw [countP_cons, countP_cons] at hcount
    by_cases hp : p a
    · have hq : q b := by
        by_contra hq
        rw [if_pos hp, if_neg hq] at hcount
        omega
      rw [if_pos hp, if_pos hq] at hcount
      exact .cons ⟨hab, fun _ ↦ hq⟩ (ih (by omega))
    · have hq : ¬q b := fun hq ↦ hp (himp a b hab hq)
      rw [if_neg hp, if_neg hq] at hcount
      exact .cons ⟨hab, fun h ↦ absurd h hp⟩ (ih hcount)

/-- What holds of the left entries. -/
theorem Forall₂.forall_left {P : α → Prop} (h : Forall₂ (fun a (_ : β) ↦ P a) l m) : ∀ a ∈ l, P a := by
  induction h with
  | nil => exact forall_mem_nil _
  | cons ha _ ih => exact forall_mem_cons.2 ⟨ha, ih⟩

/-- Related entries that are kept together stay related. -/
theorem Forall₂.filter (h : Forall₂ R l m) (hkeep : ∀ a b, R a b → p a = q b) :
    Forall₂ (fun a b ↦ R a b ∧ p a) (l.filter p) (m.filter q) := by
  induction h with
  | nil => exact .nil
  | @cons a b l m hab _ ih =>
    rw [List.filter_cons, List.filter_cons, ← hkeep a b hab]
    split
    · exact .cons ⟨hab, ‹_›⟩ ih
    · exact ih

/-- Two lists that are both in step with a third. -/
theorem Forall₂.through {γ : Type} {n : List γ} {S : α → γ → Prop} {T : β → γ → Prop} (h : Forall₂ R l m)
    (h' : Forall₂ S l n) (himp : ∀ a ∈ l, ∀ b c, R a b → S a c → T b c) : Forall₂ T m n := by
  induction h generalizing n with
  | nil =>
    cases h'
    exact .nil
  | cons hab _ ih =>
    obtain ⟨ha, hl⟩ := forall_mem_cons.1 himp
    cases h' with
    | cons hac h' => exact .cons (ha _ _ hab hac) (ih h' hl)

/-- A relation between lists may be replaced place by place. -/
theorem forall₂_of_getElem? {S : α → β → Prop} (h : Forall₂ R l m)
    (himp : ∀ (i : ℕ) a b, l[i]? = some a → m[i]? = some b → R a b → S a b) : Forall₂ S l m := by
  induction h with
  | nil => exact .nil
  | cons hab _ ih => exact .cons (himp 0 _ _ rfl rfl hab) (ih fun i a b ha hb ↦ himp (i + 1) a b ha hb)

/-- Related lists are related place by place. -/
theorem Forall₂.getElem? (h : Forall₂ R l m) {i : ℕ} {a : α} {b : β} (ha : l[i]? = some a)
    (hb : m[i]? = some b) : R a b := by
  induction h generalizing i with
  | nil => exact absurd ha nofun
  | cons hab _ ih =>
    cases i with
    | zero =>
      obtain rfl := Option.some.inj ha
      obtain rfl := Option.some.inj hb
      exact hab
    | succ i => exact ih ha hb

/-! ### Entries of their own -/

/-- The only entry of a kind is what a filter for the kind leaves. -/
theorem filter_eq_singleton {l : List α} {a : α} (hmem : a ∈ l) (hp : p a)
    (huniq : l.Pairwise fun b c ↦ ¬(p b ∧ p c)) : l.filter p = [a] := by
  obtain ⟨ahead, behind, rfl⟩ := append_of_mem hmem
  obtain ⟨-, hcons, hahead⟩ := pairwise_append.1 huniq
  have hleft : ahead.filter p = [] := filter_eq_nil_iff.2 fun b hb hpb ↦
    hahead b hb a mem_cons_self ⟨hpb, hp⟩
  have hright : behind.filter p = [] := filter_eq_nil_iff.2 fun b hb hpb ↦
    (pairwise_cons.1 hcons).1 b hb ⟨hp, hpb⟩
  rw [filter_append, hleft, filter_cons_of_pos hp, hright, nil_append]

/-- Lists that are put together of pieces of the same lengths are equal when the pieces are. -/
theorem flatMap_eq_flatMap_iff {l : List α} {f g : α → List β}
    (hlength : ∀ a ∈ l, (f a).length = (g a).length) :
    l.flatMap f = l.flatMap g ↔ ∀ a ∈ l, f a = g a := by
  induction l with
  | nil => exact iff_of_true rfl (forall_mem_nil _)
  | cons a l ih =>
    have hrest := ih fun b hb ↦ hlength b (mem_cons_of_mem _ hb)
    rw [flatMap_cons, flatMap_cons, forall_mem_cons, ← hrest]
    constructor
    · intro h
      exact append_inj h (hlength a mem_cons_self)
    · rintro ⟨hhead, htail⟩
      rw [hhead, htail]

/-- An entry on the right is related to one on the left. -/
theorem Forall₂.exists_left (h : Forall₂ R l m) {b : β} (hb : b ∈ m) : ∃ a ∈ l, R a b := by
  induction h with
  | nil => exact absurd hb not_mem_nil
  | cons hab _ ih =>
    rcases mem_cons.1 hb with rfl | hb
    · exact ⟨_, mem_cons_self, hab⟩
    · obtain ⟨a, ha, hab⟩ := ih hb
      exact ⟨a, mem_cons_of_mem _ ha, hab⟩

/-- What holds of any two entries holds of the entries related to them. -/
theorem Forall₂.pairwise {S : α → α → Prop} {T : β → β → Prop} (h : Forall₂ R l m) (hl : l.Pairwise S)
    (himp : ∀ a ∈ l, ∀ a' ∈ l, ∀ b b', S a a' → R a b → R a' b' → T b b') : m.Pairwise T := by
  induction h with
  | nil => exact .nil
  | @cons a b l m hab hrest ih =>
    obtain ⟨hhead, htail⟩ := pairwise_cons.1 hl
    refine pairwise_cons.2 ⟨fun b' hb' ↦ ?_, ih htail fun a ha a' ha' ↦
      himp a (mem_cons_of_mem _ ha) a' (mem_cons_of_mem _ ha')⟩
    obtain ⟨a', ha', hab'⟩ := hrest.exists_left hb'
    exact himp a mem_cons_self a' (mem_cons_of_mem _ ha') b b' (hhead a' ha') hab hab'

/-- Entries no two of which are apart are at most one. -/
theorem Pairwise.length_le_one {S : α → α → Prop} (h : l.Pairwise S) (hne : ∀ a ∈ l, ∀ b ∈ l, ¬S a b) :
    l.length ≤ 1 := by
  match l with
  | [] => exact Nat.zero_le _
  | [_] => exact Nat.le_refl _
  | a :: b :: _ =>
    exact absurd ((pairwise_cons.1 h).1 b mem_cons_self)
      (hne a mem_cons_self b (mem_cons_of_mem _ mem_cons_self))

/-! ### What stands behind an entry -/

/-- Every occurrence of `a` has an entry with `P` right behind it. -/
def FollowedBy (a : α) (P : α → Prop) (l : List α) : Prop :=
  ∀ before after, l = before ++ a :: after → ∃ b, after.head? = some b ∧ P b

theorem followedBy_nil {a : α} {P : α → Prop} : FollowedBy a P [] := by
  intro before after h
  exact absurd h.symm (append_ne_nil_of_right_ne_nil _ (cons_ne_nil _ _))

/-- Whether an element is followed as asked, the first element apart. -/
theorem followedBy_cons {a b : α} {P : α → Prop} :
    FollowedBy a P (b :: l) ↔ (b = a → ∃ c, l.head? = some c ∧ P c) ∧ FollowedBy a P l := by
  constructor
  · intro h
    constructor
    · rintro rfl
      exact h [] l rfl
    · rintro before after rfl
      exact h (b :: before) after rfl
  · rintro ⟨hhead, htail⟩ before after heq
    match before with
    | [] =>
      cases heq
      exact hhead rfl
    | _ :: before =>
      cases heq
      exact htail before after rfl

/-- A part without the element does not matter. -/
theorem followedBy_append {a : α} {P : α → Prop} {m l : List α} (hm : a ∉ m) :
    FollowedBy a P (m ++ l) ↔ FollowedBy a P l := by
  induction m with
  | nil => exact Iff.rfl
  | cons b m ih =>
    have hne : b ≠ a := fun h ↦ hm (h ▸ mem_cons_self)
    rw [cons_append, followedBy_cons, ih fun h ↦ hm (mem_cons_of_mem _ h)]
    exact and_iff_right fun h ↦ absurd h hne

/-- The positions of the entries that are kept do not change when the others are changed and entries that
are not kept are appended. -/
theorem filter_zipIdx_map_append {f : α → α} {rest : List α} (hkept : ∀ a ∈ l, p a → f a = a)
    (hchanged : ∀ a ∈ l, p (f a) = p a) (hrest : ∀ a ∈ rest, p a = false) (n : Nat) :
    ((l.map f ++ rest).zipIdx n).filter (fun entry ↦ p entry.1) =
      (l.zipIdx n).filter fun entry ↦ p entry.1 := by
  induction l generalizing n with
  | nil =>
    rw [map_nil, nil_append, zipIdx_nil, filter_nil, filter_eq_nil_iff]
    intro entry hentry
    rw [hrest entry.1 (fst_mem_of_mem_zipIdx hentry)]
    exact Bool.false_ne_true
  | cons a l ih =>
    rw [map_cons, cons_append, zipIdx_cons, zipIdx_cons, filter_cons, filter_cons,
      hchanged a mem_cons_self,
      ih (fun b hb ↦ hkept b (mem_cons_of_mem a hb)) (fun b hb ↦ hchanged b (mem_cons_of_mem a hb))]
    split
    · rw [hkept a mem_cons_self ‹_›]
    · rfl

/-- Lists split at the first occurrence of an element. -/
theorem append_cons_inj_of_first {a : α} {l l' m m' : List α} (hl : a ∉ l) (hl' : a ∉ l') :
    l ++ a :: m = l' ++ a :: m' ↔ l = l' ∧ m = m' := by
  refine ⟨fun h ↦ ?_, fun ⟨h, h'⟩ ↦ h ▸ h' ▸ rfl⟩
  induction l generalizing l' with
  | nil =>
    cases l' with
    | nil => exact ⟨rfl, (List.cons.inj h).2⟩
    | cons b l' => exact absurd (List.mem_cons.2 (.inl (List.cons.inj h).1)) hl'
  | cons b l ih =>
    cases l' with
    | nil => exact absurd (List.mem_cons.2 (.inl (List.cons.inj h).1.symm)) hl
    | cons b' l' =>
      obtain ⟨rfl, hrest⟩ := List.cons.inj h
      obtain ⟨rfl, rfl⟩ := ih (fun hmem ↦ hl (List.mem_cons_of_mem _ hmem))
        (fun hmem ↦ hl' (List.mem_cons_of_mem _ hmem)) hrest
      exact ⟨rfl, rfl⟩

/-! ### Sums over a list -/

section Sums

variable {elems : List α} {a b : α} {i : Nat}

/-- Each term is at most the sum. -/
theorem le_sum_map (f : α → Nat) (hi : elems[i]? = some a) : f a ≤ (elems.map f).sum := by
  induction elems generalizing i with
  | nil => cases hi
  | cons c elems ih =>
    rw [List.map_cons, List.sum_cons]
    cases i with
    | zero =>
      obtain rfl : c = a := Option.some.inj hi
      exact Nat.le_add_right _ _
    | succ i => exact Nat.le_trans (ih hi) (Nat.le_add_left _ _)

/-- Replacing an element replaces its summand. -/
theorem sum_map_set (f : α → Nat) (hi : elems[i]? = some a) :
    ((elems.set i b).map f).sum = (elems.map f).sum - f a + f b := by
  induction elems generalizing i with
  | nil => cases hi
  | cons c elems ih =>
    cases i with
    | zero =>
      obtain rfl : c = a := Option.some.inj hi
      simp only [List.set_cons_zero, List.map_cons, List.sum_cons]
      omega
    | succ i =>
      have hrest := ih (i := i) hi
      have hle := le_sum_map f (i := i) hi
      simp only [List.set_cons_succ, List.map_cons, List.sum_cons]
      omega

end Sums

/-! ### The element of the greatest key -/

section Greatest

variable {κ ν : Type} [LinearOrder κ] [LinearOrder ν] {key : α → κ} {value : α → ν} {l : List α} {a : α}

/-- A first element that no later one exceeds is the maximum. -/
theorem argmax_cons_of_le (h : ∀ b ∈ l, key b ≤ key a) : argmax key (a :: l) = some a := by
  rw [argmax_cons]
  cases hbest : argmax key l with
  | none => rfl
  | some best => exact if_neg (not_lt.2 (h best (argmax_mem hbest)))

/-- In every order the element of the greatest key has the greatest value exactly when no other key is that of
the greatest value. -/
theorem forall_perm_argmax_iff [DecidableEq α] (hmono : ∀ a b, value a ≤ value b → key a ≤ key b)
    (hinjective : Function.Injective value) :
    (∀ order, order.Perm l → ∀ best ∈ argmax key order, ∀ a ∈ l, value a ≤ value best) ↔
      ∀ a ∈ l, ∀ b ∈ l, (∀ c ∈ l, value c ≤ value b) → key a = key b → a = b := by
  constructor
  · intro h a ha b hb hgreatest hkey
    -- the order that has `a` first
    have horder : (a :: l.erase a).Perm l := (perm_cons_erase ha).symm
    have hfirst : argmax key (a :: l.erase a) = some a := argmax_cons_of_le fun c hc ↦
      (hmono c b (hgreatest c (mem_of_mem_erase hc))).trans hkey.ge
    exact hinjective (le_antisymm (hgreatest a ha) (h _ horder a hfirst b hb))
  · intro h order horder best hbest a ha
    have hmem : best ∈ l := horder.mem_iff.1 (argmax_mem hbest)
    obtain ⟨greatest, hgreatest⟩ : ∃ greatest, argmax value l = some greatest :=
      Option.ne_none_iff_exists'.1 fun hnone ↦ ne_nil_of_mem ha (argmax_eq_none.1 hnone)
    have hle : ∀ c ∈ l, value c ≤ value greatest := fun c hc ↦ le_of_mem_argmax hc hgreatest
    have hkey : key greatest ≤ key best := le_of_mem_argmax (horder.mem_iff.2 (argmax_mem hgreatest)) hbest
    have hsame := h best hmem greatest (argmax_mem hgreatest) hle (le_antisymm (hmono _ _ (hle best hmem)) hkey)
    rw [hsame]
    exact hle a ha

end Greatest

/-! ### Loops -/

section Loops

variable {m : Type → Type} [Monad m] [LawfulMonad m] {f : α → m PUnit} {items : List α} {item : α}

/-- A loop whose body does nothing does nothing. -/
theorem forM_eq_pure (h : ∀ other ∈ items, f other = pure ⟨⟩) : items.forM f = pure ⟨⟩ := by
  induction items with
  | nil => rfl
  | cons first items ih =>
    show (f first >>= fun _ ↦ items.forM f) = _
    rw [h first mem_cons_self, pure_bind, ih fun other hother ↦ h other (mem_cons_of_mem _ hother)]

/-- A loop that does something for one item only. -/
theorem forM_eq_of_mem (hnodup : items.Nodup) (hitem : item ∈ items)
    (h : ∀ other ∈ items, other ≠ item → f other = pure ⟨⟩) : items.forM f = f item := by
  induction items with
  | nil => cases hitem
  | cons first items ih =>
    obtain ⟨hfirst, hnodup⟩ := nodup_cons.1 hnodup
    show (f first >>= fun _ ↦ items.forM f) = _
    rcases mem_cons.1 hitem with rfl | hitem
    · have hrest : items.forM f = pure ⟨⟩ := forM_eq_pure fun other hother ↦
        h other (mem_cons_of_mem _ hother) fun heq ↦ hfirst (heq ▸ hother)
      rw [hrest]
      exact bind_pure (f item)
    · have hne : first ≠ item := fun heq ↦ hfirst (heq ▸ hitem)
      rw [h first mem_cons_self hne, pure_bind]
      exact ih hnodup hitem fun other hother ↦ h other (mem_cons_of_mem _ hother)

end Loops

end List
