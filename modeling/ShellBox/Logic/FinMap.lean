import ShellBox.Logic.PathMap

/-!
# Finite maps

A partial function with its finite set of keys. The keys are determined by the function, so two
maps with the same values are equal, and whether some entry has a property can be decided.
-/

namespace ShellBox

open Function

variable {κ β : Type*} [DecidableEq κ]

structure FinMap (κ β : Type*) where
  get : κ → Option β
  keys : Finset κ
  mem_keys : ∀ k, k ∈ keys ↔ (get k).isSome

namespace FinMap

instance : CoeFun (FinMap κ β) fun _ => κ → Option β := ⟨FinMap.get⟩

omit [DecidableEq κ] in
@[ext] lemma ext {m n : FinMap κ β} (h : ∀ k, m k = n k) : m = n := by
  obtain ⟨f, s, hs⟩ := m
  obtain ⟨g, t, ht⟩ := n
  obtain rfl : f = g := funext h
  obtain rfl : s = t := by
    ext k
    rw [hs, ht]
  rfl

/-- A function that is defined on a part of `s` only. -/
def ofFun (f : κ → Option β) (s : Finset κ) (h : ∀ k, (f k).isSome → k ∈ s) : FinMap κ β where
  get := f
  keys := s.filter fun k => (f k).isSome
  mem_keys k := by
    rw [Finset.mem_filter]
    exact and_iff_right_of_imp (h k)

omit [DecidableEq κ] in
@[simp] lemma ofFun_apply (f : κ → Option β) (s : Finset κ) (h : ∀ k, (f k).isSome → k ∈ s)
    (k : κ) : ofFun f s h k = f k := rfl

def empty : FinMap κ β := ⟨fun _ => none, ∅, by simp⟩

omit [DecidableEq κ] in
@[simp] lemma empty_apply (k : κ) : (empty : FinMap κ β) k = none := rfl

def set (m : FinMap κ β) (k : κ) (v : β) : FinMap κ β :=
  ofFun (update m.get k (some v)) (insert k m.keys) fun k' h => by
    by_cases hk : k' = k
    · simp [hk]
    · rw [update_of_ne hk, ← m.mem_keys] at h
      exact Finset.mem_insert_of_mem h

def erase (m : FinMap κ β) (k : κ) : FinMap κ β :=
  ofFun (update m.get k none) m.keys fun k' h => by
    by_cases hk : k' = k
    · simp [hk] at h
    · rwa [update_of_ne hk, ← m.mem_keys] at h

variable (m : FinMap κ β) (k k' : κ) (v : β)

@[simp] lemma set_get : (m.set k v).get = update m.get k (some v) := rfl

@[simp] lemma erase_get : (m.erase k).get = update m.get k none := rfl

/-- Some entry has the value `v`. -/
def HasValue (m : FinMap κ β) (v : β) : Prop := ∃ k, m k = some v

instance [DecidableEq β] : Decidable (m.HasValue v) :=
  decidable_of_iff (∃ k ∈ m.keys, m k = some v) <| by
    constructor
    · rintro ⟨k, -, hk⟩
      exact ⟨k, hk⟩
    · rintro ⟨k, hk⟩
      exact ⟨k, by simp [m.mem_keys, hk], hk⟩

/-- The number behind the greatest key. -/
def nextKey (m : FinMap ℕ β) : ℕ := m.keys.sup id + 1

lemma nextKey_free (m : FinMap ℕ β) : m m.nextKey = none := by
  by_contra h
  have hmem : m.nextKey ∈ m.keys := by
    rw [m.mem_keys, Option.isSome_iff_ne_none]
    exact h
  have hle : m.nextKey ≤ m.keys.sup id := Finset.le_sup (f := id) hmem
  unfold nextKey at hle
  omega

section Trees

variable {α : Type*} [DecidableEq α] (sep : α) (r s : List α)

def deleteTree (m : FinMap (List α) β) : FinMap (List α) β :=
  ofFun (ShellBox.deleteTree sep r m.get) m.keys fun p h => by
    rw [m.mem_keys]
    unfold ShellBox.deleteTree at h
    split_ifs at h
    · simp at h
    · exact h

def moveTree (m : FinMap (List α) β) : FinMap (List α) β :=
  ofFun (ShellBox.moveTree sep r s m.get)
    (m.keys ∪ m.keys.image fun p => s ++ p.drop r.length) fun p h => by
    rw [Finset.mem_union, Finset.mem_image, m.mem_keys]
    by_cases hm : ∃ t, tailOf sep s p = some t ∧ m (r ++ t) ≠ none
    · obtain ⟨t, ht, hmt⟩ := hm
      refine Or.inr ⟨r ++ t, ?_, ?_⟩
      · rwa [m.mem_keys, Option.isSome_iff_ne_none]
      · simpa using (tailOf_eq_some.1 ht).1.symm
    · push Not at hm
      rw [moveTree_of_none hm] at h
      split_ifs at h
      · simp at h
      · exact Or.inl h

@[simp] lemma deleteTree_get (m : FinMap (List α) β) :
    (m.deleteTree sep r).get = ShellBox.deleteTree sep r m.get := rfl

@[simp] lemma moveTree_get (m : FinMap (List α) β) :
    (m.moveTree sep r s).get = ShellBox.moveTree sep r s m.get := rfl

end Trees

end FinMap

end ShellBox
