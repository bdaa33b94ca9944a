import Mathlib

/-!
# Counting the occupied slots of a map

A map `f : κ → Option α` with finitely many occupied slots is counted by a predicate on the
values it holds. Filling and emptying one slot changes each count by what that slot held
before and holds afterwards.
-/

namespace ShellBox

open Function

variable {κ α : Type*}

/-- The slots of `f` whose value satisfies `P`. -/
def slots (f : κ → Option α) (P : α → Prop) : Set κ := {k | ∃ a, f k = some a ∧ P a}

lemma mem_slots {f : κ → Option α} {P : α → Prop} {k : κ} :
    k ∈ slots f P ↔ ∃ a, f k = some a ∧ P a := Iff.rfl

/-- Only finitely many slots are occupied. -/
def FiniteSlots (f : κ → Option α) : Prop := {k | f k ≠ none}.Finite

lemma FiniteSlots.slots {f : κ → Option α} (h : FiniteSlots f) (P : α → Prop) :
    (slots f P).Finite :=
  h.subset fun k ⟨a, ha, _⟩ => by simp [ha]

lemma finiteSlots_empty : FiniteSlots (fun _ : κ => (none : Option α)) := by
  simp [FiniteSlots]

/-- The number of slots of `f` whose value satisfies `P`. -/
noncomputable def slotCount (f : κ → Option α) (P : α → Prop) : ℕ := (slots f P).ncard

lemma slotCount_empty (P : α → Prop) : slotCount (fun _ : κ => (none : Option α)) P = 0 := by
  simp [slotCount, slots]

lemma slotCount_eq_zero {f : κ → Option α} (h : FiniteSlots f) {P : α → Prop} :
    slotCount f P = 0 ↔ ∀ k a, f k = some a → ¬ P a := by
  rw [slotCount, Set.ncard_eq_zero (h.slots P), Set.eq_empty_iff_forall_notMem]
  simp [mem_slots]

variable [DecidableEq κ]

lemma FiniteSlots.update {f : κ → Option α} (h : FiniteSlots f) (k : κ) (v : Option α) :
    FiniteSlots (update f k v) := by
  refine (h.insert k).subset fun k' hk' => ?_
  by_cases hk : k' = k
  · exact Or.inl hk
  · exact Or.inr (by simpa [hk] using hk')

lemma slots_update_none (f : κ → Option α) (P : α → Prop) (k : κ) :
    slots (update f k none) P = slots f P \ {k} := by
  ext k'
  by_cases hk : k' = k <;> simp [mem_slots, hk]

lemma slots_update_some_of_pos (f : κ → Option α) {P : α → Prop} (k : κ) {a : α} (ha : P a) :
    slots (update f k (some a)) P = insert k (slots f P) := by
  ext k'
  by_cases hk : k' = k <;> simp [mem_slots, hk, ha]

lemma slots_update_some_of_neg (f : κ → Option α) {P : α → Prop} (k : κ) {a : α} (ha : ¬ P a) :
    slots (update f k (some a)) P = slots f P \ {k} := by
  ext k'
  by_cases hk : k' = k <;> simp [mem_slots, hk, ha]

/-- Replacing a value by another one that agrees on `P` leaves the counted slots alone. -/
lemma slots_update_congr (f : κ → Option α) {P : α → Prop} {k : κ} {a b : α} (hk : f k = some a)
    (hab : P a ↔ P b) : slots (update f k (some b)) P = slots f P := by
  ext k'
  by_cases h : k' = k
  · subst h; simp [mem_slots, hk, hab]
  · simp [mem_slots, h]

lemma map_update {β : Type*} (f : κ → Option α) (k : κ) (v : Option α) (g : α → β) :
    (fun k' => (update f k v k').map g) = update (fun k' => (f k').map g) k (v.map g) := by
  funext k'
  by_cases hk : k' = k
  · rw [hk, update_self, update_self]
  · rw [update_of_ne hk, update_of_ne hk]

/-- Filling an empty slot. -/
lemma slotCount_fill {f : κ → Option α} (h : FiniteSlots f) {P : α → Prop} [DecidablePred P]
    {k : κ} (hk : f k = none) (a : α) :
    slotCount (update f k (some a)) P = slotCount f P + if P a then 1 else 0 := by
  have hmem : k ∉ slots f P := by simp [mem_slots, hk]
  unfold slotCount
  split_ifs with ha
  · rw [slots_update_some_of_pos f k ha, Set.ncard_insert_of_notMem hmem (h.slots P)]
  · rw [slots_update_some_of_neg f k ha, Set.sdiff_singleton_eq_self hmem, Nat.add_zero]

/-- Emptying an occupied slot. -/
lemma slotCount_clear {f : κ → Option α} (h : FiniteSlots f) {P : α → Prop} [DecidablePred P]
    {k : κ} {a : α} (hk : f k = some a) :
    slotCount (update f k none) P + (if P a then 1 else 0) = slotCount f P := by
  unfold slotCount
  rw [slots_update_none]
  split_ifs with ha
  · exact Set.ncard_sdiff_singleton_add_one ⟨a, hk, ha⟩ (h.slots P)
  · have hmem : k ∉ slots f P := by
      rintro ⟨b, hb, hPb⟩
      exact ha (Option.some.inj (hk.symm.trans hb) ▸ hPb)
    rw [Set.sdiff_singleton_eq_self hmem, Nat.add_zero]

/-- Replacing the value of an occupied slot. -/
lemma slotCount_replace {f : κ → Option α} (h : FiniteSlots f) {P : α → Prop} [DecidablePred P]
    {k : κ} {a : α} (hk : f k = some a) (b : α) :
    slotCount (update f k (some b)) P + (if P a then 1 else 0) =
      slotCount f P + if P b then 1 else 0 := by
  have hfill := slotCount_fill (h.update k none) (P := P) (update_self k none f) b
  rw [update_idem] at hfill
  rw [hfill, ← slotCount_clear h hk (P := P)]
  exact Nat.add_right_comm _ _ _

lemma slotCount_congr {f : κ → Option α} {P : α → Prop} {k : κ} {a b : α} (hk : f k = some a)
    (hab : P a ↔ P b) : slotCount (update f k (some b)) P = slotCount f P := by
  rw [slotCount, slots_update_congr f hk hab, slotCount]

end ShellBox
