import Mathlib

/-!
# Maps over paths

A path is a list with a separator, and the path `p` lies in the tree of `r` if it is `r` itself
or goes on with a separator behind it. A partial map from paths to objects can lose a tree and
have a tree moved; moving is a renaming of the keys, with whatever stood at a new key lost.

Two maps *agree* if they are defined at the same paths and identify the same pairs of paths.
Every operation that only renames keys, the same way on both sides, keeps agreement.
-/

namespace ShellBox

open Function

variable {α β γ κ : Type*}

section Trees

variable [DecidableEq α] (sep : α)

/-- What can follow a path inside its tree. -/
def IsTail (t : List α) : Prop := t = [] ∨ t.head? = some sep

instance (t : List α) : Decidable (IsTail sep t) := inferInstanceAs (Decidable (_ ∨ _))

/-- What follows `r` in `p`, if `p` lies in the tree of `r`. -/
def tailOf (r p : List α) : Option (List α) :=
  if r <+: p ∧ IsTail sep (p.drop r.length) then some (p.drop r.length) else none

variable {sep} {p r s t : List α} {f : List α → Option β}

lemma tailOf_eq_some : tailOf sep r p = some t ↔ p = r ++ t ∧ IsTail sep t := by
  unfold tailOf
  constructor
  · intro h
    split_ifs at h with hp
    obtain rfl := Option.some.inj h
    exact ⟨(List.prefix_iff_eq_append.1 hp.1).symm, hp.2⟩
  · rintro ⟨rfl, ht⟩
    simp [ht]

lemma tailOf_append (ht : IsTail sep t) : tailOf sep r (r ++ t) = some t :=
  tailOf_eq_some.2 ⟨rfl, ht⟩

omit [DecidableEq α] in
@[simp] lemma isTail_nil : IsTail sep ([] : List α) := Or.inl rfl

omit [DecidableEq α] in
@[simp] lemma isTail_cons (c : α) (t : List α) : IsTail sep (c :: t) ↔ c = sep := by
  simp [IsTail]

@[simp] lemma tailOf_self : tailOf sep r r = some [] := by
  simpa using tailOf_append (r := r) isTail_nil

/-- Trees of two paths meet only if one path lies in the tree of the other. -/
lemma tailOf_or_tailOf (hr : tailOf sep r p = some t) {u : List α} (hs : tailOf sep s p = some u) :
    (∃ v, tailOf sep r s = some v) ∨ ∃ v, tailOf sep s r = some v := by
  obtain ⟨hpr, ht⟩ := tailOf_eq_some.1 hr
  obtain ⟨hps, hu⟩ := tailOf_eq_some.1 hs
  rcases List.append_eq_append_iff.1 (hpr.symm.trans hps) with ⟨v, hs, htv⟩ | ⟨v, hr, huv⟩
  · refine Or.inl ⟨v, tailOf_eq_some.2 ⟨hs, ?_⟩⟩
    cases v with
    | nil => simp
    | cons c v =>
      rw [htv] at ht
      simpa using ht
  · refine Or.inr ⟨v, tailOf_eq_some.2 ⟨hr, ?_⟩⟩
    cases v with
    | nil => simp
    | cons c v =>
      rw [huv] at hu
      simpa using hu

/-- A tree is part of the tree of any path above. -/
lemma tailOf_trans {u : List α} (hr : tailOf sep r s = some u) (hs : tailOf sep s p = some t) :
    tailOf sep r p = some (u ++ t) := by
  obtain ⟨rfl, hu⟩ := tailOf_eq_some.1 hr
  obtain ⟨rfl, ht⟩ := tailOf_eq_some.1 hs
  refine tailOf_eq_some.2 ⟨by simp, ?_⟩
  cases u with
  | nil => simpa using ht
  | cons c u => simpa using hu

/-- Everything in the tree of `r` is gone. -/
def deleteTree (sep : α) (r : List α) (f : List α → Option β) : List α → Option β :=
  fun p => if (tailOf sep r p).isSome then none else f p

/-- The tree of `src` is moved to `dst`. -/
def moveTree (sep : α) (src dst : List α) (f : List α → Option β) : List α → Option β := fun p =>
  match (tailOf sep dst p).bind fun t => f (src ++ t) with
  | some v => some v
  | none => if (tailOf sep src p).isSome then none else f p

lemma deleteTree_of_some (h : tailOf sep r p = some t) : deleteTree sep r f p = none := by
  simp [deleteTree, h]

lemma deleteTree_of_none (h : tailOf sep r p = none) : deleteTree sep r f p = f p := by
  simp [deleteTree, h]

lemma moveTree_of_some (h : tailOf sep s p = some t) {v : β} (hv : f (r ++ t) = some v) :
    moveTree sep r s f p = some v := by
  simp [moveTree, h, hv]

/-- Where nothing arrives. -/
lemma moveTree_of_none (h : ∀ t, tailOf sep s p = some t → f (r ++ t) = none) :
    moveTree sep r s f p = if (tailOf sep r p).isSome then none else f p := by
  have hb : ((tailOf sep s p).bind fun t => f (r ++ t)) = none := by
    cases ht : tailOf sep s p with
    | none => rfl
    | some t => exact h t ht
  simp [moveTree, hb]

lemma moveTree_outside (hs : tailOf sep s p = none) (hr : tailOf sep r p = none) :
    moveTree sep r s f p = f p := by
  rw [moveTree_of_none (by simp [hs])]
  simp [hr]

/-- A tree with nothing in it moves nothing. -/
lemma moveTree_of_empty (h : ∀ p, (tailOf sep r p).isSome → f p = none) :
    moveTree sep r s f = f := by
  funext p
  rw [moveTree_of_none]
  · split_ifs with hp
    · exact (h p hp).symm
    · rfl
  · intro t ht
    exact h _ (by simp [tailOf_append (tailOf_eq_some.1 ht).2])

/-- A tree that is moved to where it is. -/
lemma moveTree_self (sep : α) (r : List α) (f : List α → Option β) : moveTree sep r r f = f := by
  funext p
  by_cases hp : ∃ t, tailOf sep r p = some t ∧ f (r ++ t) ≠ none
  · obtain ⟨t, ht, hne⟩ := hp
    obtain ⟨v, hv⟩ := Option.ne_none_iff_exists'.1 hne
    rw [moveTree_of_some ht hv, (tailOf_eq_some.1 ht).1, hv]
  · push Not at hp
    rw [moveTree_of_none hp]
    split_ifs with hr
    · obtain ⟨t, ht⟩ := Option.isSome_iff_exists.1 hr
      rw [(tailOf_eq_some.1 ht).1, hp t ht]
    · rfl

/-- Each value after a move is a value at some path before it, or nothing. -/
lemma moveTree_source (sep : α) (r s : List α) (f : List α → Option β) (p : List α) :
    moveTree sep r s f p = none ∨ ∃ q, moveTree sep r s f p = f q := by
  by_cases h : moveTree sep r s f p = none
  · exact Or.inl h
  · refine Or.inr ?_
    cases hb : (tailOf sep s p).bind fun t => f (r ++ t) with
    | some v =>
      obtain ⟨t, -, hv⟩ := Option.bind_eq_some_iff.1 hb
      exact ⟨r ++ t, by simp [moveTree, hb, hv]⟩
    | none =>
      simp only [moveTree, hb] at h ⊢
      split_ifs at h ⊢ with hp
      · exact absurd rfl h
      · exact ⟨p, rfl⟩

end Trees

/-! ### Agreement -/

/-- The maps are defined at the same keys and identify the same keys. -/
structure Agree (f : κ → Option β) (g : κ → Option γ) : Prop where
  dom : ∀ p, f p = none ↔ g p = none
  same : ∀ p q, f p = f q ↔ g p = g q

namespace Agree

variable {f f' : κ → Option β} {g g' : κ → Option γ}

/-- Keys that are renamed the same way. -/
lemma reindex (h : Agree f g)
    (hr : ∀ p, (f' p = none ∧ g' p = none) ∨ ∃ q, f' p = f q ∧ g' p = g q) : Agree f' g' := by
  constructor
  · intro p
    rcases hr p with ⟨hf, hg⟩ | ⟨q, hf, hg⟩
    · simp [hf, hg]
    · rw [hf, hg, h.dom]
  · intro p q
    rcases hr p with ⟨hf, hg⟩ | ⟨p', hf, hg⟩ <;> rcases hr q with ⟨hf', hg'⟩ | ⟨q', hf', hg'⟩
    · simp [hf, hg, hf', hg']
    · rw [hf, hg, hf', hg', eq_comm, h.dom, eq_comm]
    · rw [hf, hg, hf', hg', h.dom]
    · rw [hf, hg, hf', hg', h.same]

variable [DecidableEq κ]

lemma remove (h : Agree f g) (p : κ) : Agree (update f p none) (update g p none) := by
  refine h.reindex fun q => ?_
  by_cases hq : q = p
  · simp [hq]
  · exact Or.inr ⟨q, by simp [hq]⟩

/-- A second name for what a key stands for. -/
lemma copy (h : Agree f g) (p q : κ) : Agree (update f q (f p)) (update g q (g p)) := by
  refine h.reindex fun r => Or.inr ?_
  by_cases hr : r = q
  · exact ⟨p, by simp [hr]⟩
  · exact ⟨r, by simp [hr]⟩

/-- A key for something new. -/
lemma insert (h : Agree f g) (p : κ) {b : β} {c : γ} (hb : ∀ q, f q ≠ some b)
    (hc : ∀ q, g q ≠ some c) : Agree (update f p (some b)) (update g p (some c)) := by
  constructor
  · intro q
    by_cases hq : q = p
    · simp [hq]
    · simpa [hq] using h.dom q
  · intro q r
    by_cases hq : q = p <;> by_cases hr : r = p
    · simp [hq, hr]
    · simp [hq, hr, (hb r).symm, (hc r).symm]
    · simp [hq, hr, hb q, hc q]
    · simpa [hq, hr] using h.same q r

end Agree

/-- Moving a tree on both sides. -/
lemma Agree.moveTree [DecidableEq α] {f : List α → Option β} {g : List α → Option γ}
    (h : Agree f g) (sep : α) (r s : List α) :
    Agree (ShellBox.moveTree sep r s f) (ShellBox.moveTree sep r s g) := by
  refine h.reindex fun p => ?_
  by_cases hm : ∃ t, tailOf sep s p = some t ∧ f (r ++ t) ≠ none
  · obtain ⟨t, ht, hf⟩ := hm
    obtain ⟨v, hv⟩ := Option.ne_none_iff_exists'.1 hf
    obtain ⟨w, hw⟩ := Option.ne_none_iff_exists'.1 (mt (h.dom _).2 hf)
    exact Or.inr ⟨r ++ t, by rw [moveTree_of_some ht hv, hv], by rw [moveTree_of_some ht hw, hw]⟩
  · push Not at hm
    rw [moveTree_of_none hm, moveTree_of_none fun t ht => (h.dom _).1 (hm t ht)]
    split_ifs with hp
    · exact Or.inl ⟨rfl, rfl⟩
    · exact Or.inr ⟨p, rfl, rfl⟩

end ShellBox
