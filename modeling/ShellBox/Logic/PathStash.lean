import ShellBox.Logic.PathMap

/-!
# Trees that are put aside

The tree of a path can be moved to another name to make room, and put back later. Putting back
throws away whatever is in the tree by then. It renames keys, so that two of them can be
compared key by key: they commute if their trees are apart, and putting a tree back forgets all
changes inside it.
-/

namespace ShellBox

open Function

variable {α β : Type*} [DecidableEq α] (sep : α)

/-- The path `p` lies in the tree of `r`. -/
def InTree (r p : List α) : Prop := (tailOf sep r p).isSome

instance (r p : List α) : Decidable (InTree sep r p) := inferInstanceAs (Decidable (_ = true))

variable {sep} {p q r s t x y : List α} {f g : List α → Option β}

lemma inTree_iff : InTree sep r p ↔ ∃ t, tailOf sep r p = some t :=
  Option.isSome_iff_exists

@[simp] lemma inTree_self : InTree sep r r := by simp [InTree]

lemma InTree.trans (hr : InTree sep r s) (hs : InTree sep s p) : InTree sep r p := by
  obtain ⟨t, ht⟩ := inTree_iff.1 hr
  obtain ⟨u, hu⟩ := inTree_iff.1 hs
  exact inTree_iff.2 ⟨_, tailOf_trans ht hu⟩

/-- Trees that meet contain one another. -/
lemma InTree.or (hr : InTree sep r p) (hs : InTree sep s p) : InTree sep r s ∨ InTree sep s r := by
  obtain ⟨t, ht⟩ := inTree_iff.1 hr
  obtain ⟨u, hu⟩ := inTree_iff.1 hs
  rw [inTree_iff, inTree_iff]
  exact tailOf_or_tailOf ht hu

lemma inTree_append (ht : IsTail sep t) : InTree sep r (r ++ t) :=
  inTree_iff.2 ⟨t, tailOf_append ht⟩

lemma InTree.length_lt (h : InTree sep r p) (hne : r ≠ p) : r.length < p.length := by
  obtain ⟨t, ht⟩ := inTree_iff.1 h
  obtain ⟨rfl, -⟩ := tailOf_eq_some.1 ht
  have hpos : t ≠ [] := fun h => hne (by simp [h])
  have := List.length_pos_iff.2 hpos
  simp only [List.length_append]
  omega

lemma tailOf_of_not (h : ¬ InTree sep r p) : tailOf sep r p = none := by
  simpa [InTree] using h

variable (sep) in
/-- The tree of `r` is thrown away, and the tree at `s` becomes the tree of `r`. -/
def putBack (r s : List α) (f : List α → Option β) : List α → Option β :=
  moveTree sep s r (deleteTree sep r f)

variable (sep) in
/-- Where the value at a path comes from when a tree is put back. -/
def putBackSource (r s p : List α) : Option (List α) :=
  match tailOf sep r p with
  | some t => if InTree sep r (s ++ t) then none else some (s ++ t)
  | none => if InTree sep s p then none else some p

theorem putBack_apply (r s : List α) (f : List α → Option β) (p : List α) :
    putBack sep r s f p = (putBackSource sep r s p).bind f := by
  cases ht : tailOf sep r p with
  | none =>
    have hsource : putBackSource sep r s p = if InTree sep s p then none else some p := by
      simp [putBackSource, ht]
    rw [hsource, putBack, moveTree_of_none (by simp [ht])]
    by_cases hs : InTree sep s p
    · have hs' : (tailOf sep s p).isSome := hs
      rw [if_pos hs', if_pos hs, Option.bind_none]
    · have hs' : ¬ (tailOf sep s p).isSome := hs
      rw [if_neg hs', if_neg hs, Option.bind_some, deleteTree_of_none ht]
  | some t =>
    have hsource : putBackSource sep r s p =
        if InTree sep r (s ++ t) then none else some (s ++ t) := by
      simp [putBackSource, ht]
    have hdel : deleteTree sep r f p = none := deleteTree_of_some ht
    have htail : ∀ u, tailOf sep r p = some u → u = t := by
      intro u hu
      exact Option.some.inj (hu.symm.trans ht)
    rw [hsource, putBack]
    by_cases hin : InTree sep r (s ++ t)
    · obtain ⟨u, hu⟩ := inTree_iff.1 hin
      rw [if_pos hin, Option.bind_none, moveTree_of_none, hdel, ite_self]
      intro u' hu'
      rw [htail u' hu']
      exact deleteTree_of_some hu
    · have hdel' : deleteTree sep r f (s ++ t) = f (s ++ t) :=
        deleteTree_of_none (tailOf_of_not hin)
      rw [if_neg hin, Option.bind_some]
      cases hf : f (s ++ t) with
      | none =>
        rw [moveTree_of_none, hdel, ite_self]
        intro u' hu'
        rw [htail u' hu', hdel', hf]
      | some v => exact moveTree_of_some ht (hdel'.trans hf)

/-! ### The sources -/

lemma putBackSource_outside (hr : ¬ InTree sep r p) (hs : ¬ InTree sep s p) :
    putBackSource sep r s p = some p := by
  simp [putBackSource, tailOf_of_not hr, hs]

lemma putBackSource_stash (ht : IsTail sep t) (hr : ¬ InTree sep r (s ++ t)) :
    putBackSource sep r s (r ++ t) = some (s ++ t) := by
  simp [putBackSource, tailOf_append ht, hr]

/-- Nothing comes from the tree that is thrown away. -/
lemma putBackSource_notIn (h : putBackSource sep r s p = some x) : ¬ InTree sep r x := by
  unfold putBackSource at h
  cases ht : tailOf sep r p with
  | none =>
    simp only [ht] at h
    split_ifs at h
    obtain rfl := Option.some.inj h
    simp [InTree, ht]
  | some t =>
    simp only [ht] at h
    split_ifs at h with hin
    obtain rfl := Option.some.inj h
    exact hin

/-- A value in the tree of `r` comes from the tree of `s`. -/
lemma putBackSource_inside (hr : InTree sep r p) (h : putBackSource sep r s p = some x) :
    InTree sep s x := by
  obtain ⟨t, ht⟩ := inTree_iff.1 hr
  unfold putBackSource at h
  simp only [ht] at h
  split_ifs at h
  obtain rfl := Option.some.inj h
  exact inTree_append (tailOf_eq_some.1 ht).2

lemma putBackSource_saved (hr : ¬ InTree sep r p) (hs : InTree sep s p) :
    putBackSource sep r s p = none := by
  simp [putBackSource, tailOf_of_not hr, hs]

lemma putBack_stash_none (ht : IsTail sep t) (hf : f (s ++ t) = none) :
    putBack sep r s f (r ++ t) = none := by
  rw [putBack_apply]
  by_cases hin : InTree sep r (s ++ t)
  · simp [putBackSource, tailOf_append ht, hin]
  · rw [putBackSource_stash ht hin, Option.bind_some, hf]

lemma putBack_outside (hr : ¬ InTree sep r p) (hs : ¬ InTree sep s p) :
    putBack sep r s f p = f p := by
  rw [putBack_apply, putBackSource_outside hr hs, Option.bind_some]

/-! ### Maps that differ in a tree only -/

variable (sep) in
def EqOff (r : List α) (f g : List α → Option β) : Prop := ∀ p, ¬ InTree sep r p → f p = g p

lemma putBack_congr (h : EqOff sep r f g) : putBack sep r s f = putBack sep r s g := by
  funext p
  rw [putBack_apply, putBack_apply]
  cases hsource : putBackSource sep r s p with
  | none => rfl
  | some x => exact h x (putBackSource_notIn hsource)

variable (sep) in
/-- What a name to put the tree of `r` aside under has to be. -/
structure StashName (r s : List α) : Prop where
  apart : s = r ∨ ¬ InTree sep r s ∧ ¬ InTree sep s r
  above : ∀ p, InTree sep p s → p = s ∨ InTree sep p r
  below : ∀ p, InTree sep p r → p = r ∨ InTree sep p s

/-- A change inside the tree of `q` stays inside. -/
lemma EqOff.putBack (h : EqOff sep q f g) (hs : StashName sep r s) (hq : ¬ InTree sep s q) :
    EqOff sep q (putBack sep r s f) (putBack sep r s g) := by
  intro p hp
  rw [putBack_apply, putBack_apply]
  cases hsource : putBackSource sep r s p with
  | none => rfl
  | some x =>
    refine h x fun hx => ?_
    by_cases hr : InTree sep r p
    · have hsx := putBackSource_inside hr hsource
      rcases hsx.or hx with hsq | hqs
      · exact hq hsq
      · rcases hs.above q hqs with rfl | hqr
        · exact hq inTree_self
        · exact hp (hqr.trans hr)
    · by_cases hsp : InTree sep s p
      · rw [putBackSource_saved hr hsp] at hsource
        cases hsource
      · rw [putBackSource_outside hr hsp] at hsource
        obtain rfl := Option.some.inj hsource
        exact hp hx

/-- A tree put back inside the tree of `q` changes nothing outside. -/
lemma eqOff_putBack_of_inTree (hs : StashName sep r s) (hr : InTree sep q r) (hne : q ≠ r) :
    EqOff sep q (putBack sep r s f) f := by
  intro p hp
  refine putBack_outside (fun h => hp (hr.trans h)) fun h => ?_
  exact hp (((hs.below q hr).resolve_left hne).trans h)

lemma putBack_of_empty (hr : ∀ p, InTree sep r p → f p = none)
    (hs : ∀ p, InTree sep s p → f p = none) : putBack sep r s f = f := by
  funext p
  by_cases hpr : InTree sep r p
  · rw [hr p hpr, putBack_apply]
    cases hsource : putBackSource sep r s p with
    | none => rfl
    | some x => exact hs x (putBackSource_inside hpr hsource)
  · by_cases hps : InTree sep s p
    · rw [putBack_apply, putBackSource_saved hpr hps, hs p hps, Option.bind_none]
    · exact putBack_outside hpr hps

/-- What was put aside comes back, whatever has happened in the tree since. -/
theorem putBack_of_moved (hs : StashName sep r s) (hempty : ∀ p, InTree sep s p → f p = none)
    (hg : EqOff sep r g (moveTree sep r s f)) : putBack sep r s g = f := by
  rw [putBack_congr hg]
  funext p
  rw [putBack_apply]
  by_cases hr : InTree sep r p
  · obtain ⟨t, ht⟩ := inTree_iff.1 hr
    obtain ⟨rfl, htail⟩ := tailOf_eq_some.1 ht
    have hst : InTree sep s (s ++ t) := inTree_append htail
    rcases hs.apart with rfl | ⟨hrs, hsr⟩
    · rw [hempty _ hr]
      cases hsource : putBackSource sep s s (s ++ t) with
      | none => rfl
      | some x => exact absurd (putBackSource_inside hr hsource) (putBackSource_notIn hsource)
    · have hout : ¬ InTree sep r (s ++ t) := by
        intro h
        rcases h.or hst with h' | h'
        · exact hrs h'
        · exact hsr h'
      rw [putBackSource_stash htail hout, Option.bind_some]
      cases hf : f (r ++ t) with
      | some v => exact moveTree_of_some (tailOf_append htail) hf
      | none =>
        rw [moveTree_of_none]
        · rw [hempty _ hst, ite_self]
        · intro u hu
          obtain rfl : u = t := by
            rw [tailOf_append htail] at hu
            exact (Option.some.inj hu).symm
          exact hf
  · by_cases hsp : InTree sep s p
    · rw [putBackSource_saved hr hsp, hempty p hsp, Option.bind_none]
    · rw [putBackSource_outside hr hsp, Option.bind_some,
        moveTree_outside (tailOf_of_not hsp) (tailOf_of_not hr)]

/-- What a move leaves in the tree it takes away. -/
lemma moveTree_inside (hs : StashName sep r s) (hr : InTree sep r p) :
    moveTree sep r s f p = none ∨ s = r ∧ moveTree sep r s f p = f p := by
  rcases hs.apart with rfl | ⟨hrs, hsr⟩
  · exact Or.inr ⟨rfl, by rw [moveTree_self]⟩
  · have hsp : ¬ InTree sep s p := by
      intro h
      rcases hr.or h with h' | h'
      · exact hrs h'
      · exact hsr h'
    refine Or.inl ?_
    have hr' : (tailOf sep r p).isSome := hr
    rw [moveTree_of_none (by simp [tailOf_of_not hsp]), if_pos hr']

/-! ### Trees that are apart -/

variable (sep) in
/-- No path lies in both trees. -/
def TreesApart (r s : List α) : Prop := ¬ InTree sep r s ∧ ¬ InTree sep s r

instance (r s : List α) : Decidable (TreesApart sep r s) := inferInstanceAs (Decidable (_ ∧ _))

lemma TreesApart.not_inTree (h : TreesApart sep r s) (hr : InTree sep r p) : ¬ InTree sep s p := by
  intro hs
  rcases hr.or hs with h' | h'
  · exact h.1 h'
  · exact h.2 h'

lemma TreesApart.symm (h : TreesApart sep r s) : TreesApart sep s r := ⟨h.2, h.1⟩

variable (sep) in
/-- The trees of `r` and `s` are apart from those of `r'` and `s'`. -/
structure StashesApart (r s r' s' : List α) : Prop where
  root : TreesApart sep r r'
  root_stash : TreesApart sep r s'
  stash_root : TreesApart sep s r'
  stash : TreesApart sep s s'

variable {r' s' : List α}

lemma StashesApart.symm (h : StashesApart sep r s r' s') : StashesApart sep r' s' r s :=
  ⟨h.root.symm, h.stash_root.symm, h.root_stash.symm, h.stash.symm⟩

/-- The value in a tree that is put back comes from the stash, and is not touched elsewhere. -/
lemma StashesApart.source (h : StashesApart sep r s r' s') (hp : InTree sep r p ∨ InTree sep s p) :
    putBackSource sep r' s' p = some p ∧
      ∀ x, putBackSource sep r s p = some x → putBackSource sep r' s' x = some x := by
  constructor
  · rcases hp with hp | hp
    · exact putBackSource_outside (h.root.not_inTree hp) (h.root_stash.not_inTree hp)
    · exact putBackSource_outside (h.stash_root.not_inTree hp) (h.stash.not_inTree hp)
  · intro x hx
    have hsx : InTree sep s x := by
      by_cases hr : InTree sep r p
      · exact putBackSource_inside hr hx
      · rw [putBackSource_saved hr (hp.resolve_left hr)] at hx
        cases hx
    exact putBackSource_outside (h.stash_root.not_inTree hsx) (h.stash.not_inTree hsx)

theorem putBack_comm (h : StashesApart sep r s r' s') (f : List α → Option β) :
    putBack sep r s (putBack sep r' s' f) = putBack sep r' s' (putBack sep r s f) := by
  have hone : ∀ {r s r' s' : List α}, StashesApart sep r s r' s' → ∀ p,
      InTree sep r p ∨ InTree sep s p →
      putBack sep r s (putBack sep r' s' f) p = putBack sep r' s' (putBack sep r s f) p := by
    intro r s r' s' h p hp
    obtain ⟨hself, hsource⟩ := h.source hp
    rw [putBack_apply r s, putBack_apply r' s', hself, Option.bind_some, putBack_apply r s]
    cases hx : putBackSource sep r s p with
    | none => rfl
    | some x => rw [Option.bind_some, Option.bind_some, putBack_apply, hsource x hx,
        Option.bind_some]
  funext p
  by_cases hp : InTree sep r p ∨ InTree sep s p
  · exact hone h p hp
  · by_cases hp' : InTree sep r' p ∨ InTree sep s' p
    · exact (hone h.symm p hp').symm
    · push Not at hp hp'
      rw [putBack_outside hp.1 hp.2, putBack_outside hp'.1 hp'.2, putBack_outside hp'.1 hp'.2,
        putBack_outside hp.1 hp.2]

end ShellBox
