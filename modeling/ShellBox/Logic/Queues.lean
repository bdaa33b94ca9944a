import Mathlib

/-!
# Queues without a common member

A family of queues, where nobody is twice in one and nobody is in two. Members come in at the end
and leave at the head.
-/

namespace ShellBox

open Function

variable {κ α : Type*} [DecidableEq κ] {q : κ → List α} {k k' : κ} {a b : α} {rest : List α}

/-- Nobody is in two queues, or twice in one. -/
structure Queues (q : κ → List α) : Prop where
  nodup : ∀ k, (q k).Nodup
  unique : ∀ k k' a, a ∈ q k → a ∈ q k' → k = k'

lemma mem_pushed : b ∈ update q k (q k ++ [a]) k' ↔ b ∈ q k' ∨ k' = k ∧ b = a := by
  by_cases hk : k' = k
  · subst hk
    simp
  · simp [hk]

namespace Queues

/-- What is left when the first member is off its queue. -/
lemma mem_popped (h : Queues q) (hq : q k = a :: rest) :
    b ∈ update q k rest k' ↔ b ∈ q k' ∧ b ≠ a := by
  have hnd := h.nodup k
  rw [hq] at hnd
  have ha : a ∈ q k := hq ▸ List.mem_cons_self
  by_cases hk : k' = k
  · subst hk
    rw [update_self, hq, List.mem_cons]
    constructor
    · intro hb
      exact ⟨Or.inr hb, fun he => (List.nodup_cons.1 hnd).1 (he ▸ hb)⟩
    · rintro ⟨rfl | hb, hne⟩
      · exact absurd rfl hne
      · exact hb
  · rw [update_of_ne hk]
    refine ⟨fun hb => ⟨hb, ?_⟩, And.left⟩
    rintro rfl
    exact hk (h.unique _ _ _ hb ha)

lemma popped (h : Queues q) (hq : q k = a :: rest) : Queues (update q k rest) := by
  constructor
  · intro k'
    by_cases hk : k' = k
    · subst hk
      have hnd := h.nodup k'
      rw [hq] at hnd
      rw [update_self]
      exact (List.nodup_cons.1 hnd).2
    · rw [update_of_ne hk]
      exact h.nodup k'
  · intro k₁ k₂ b h₁ h₂
    exact h.unique k₁ k₂ b ((h.mem_popped hq).1 h₁).1 ((h.mem_popped hq).1 h₂).1

/-- A newcomer is put at the end of a queue. -/
lemma pushed (h : Queues q) (ha : ∀ k, a ∉ q k) : Queues (update q k (q k ++ [a])) := by
  constructor
  · intro k'
    by_cases hk : k' = k
    · subst hk
      rw [update_self]
      exact (h.nodup k').append (List.nodup_singleton a) (by simpa using ha k')
    · rw [update_of_ne hk]
      exact h.nodup k'
  · intro k₁ k₂ b h₁ h₂
    rcases mem_pushed.1 h₁ with hold₁ | ⟨rfl, rfl⟩
    · rcases mem_pushed.1 h₂ with hold₂ | ⟨rfl, rfl⟩
      · exact h.unique k₁ k₂ b hold₁ hold₂
      · exact absurd hold₁ (ha k₁)
    · rcases mem_pushed.1 h₂ with hold₂ | ⟨rfl, -⟩
      · exact absurd hold₂ (ha k₂)
      · rfl

end Queues

end ShellBox
