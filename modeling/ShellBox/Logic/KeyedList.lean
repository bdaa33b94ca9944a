import Mathlib

/-!
# Lists with distinct keys

The entry of a key splits the list. Taking the entry out and replacing it are then seen on the two
parts, which stay as they are.
-/

namespace ShellBox

variable {α κ : Type*} [DecidableEq κ] {key : α → κ} {k : κ} {a : α} {l : List α}

/-- The list around the entry of a key. -/
lemma exists_keyed_split (hl : (l.map key).Nodup) (ha : l.find? (fun b => key b = k) = some a) :
    ∃ l₁ l₂, l = l₁ ++ a :: l₂ ∧ key a = k ∧ ∀ b ∈ l₁ ++ l₂, key b ≠ k := by
  obtain ⟨hkey, l₁, l₂, rfl, hl₁⟩ := List.find?_eq_some_iff_append.mp ha
  have hka : key a = k := by simpa using hkey
  refine ⟨l₁, l₂, rfl, hka, fun b hb => ?_⟩
  rcases List.mem_append.mp hb with hb | hb
  · simpa using hl₁ b hb
  · rw [List.map_append, List.map_cons] at hl
    have hnot := (List.nodup_cons.mp hl.of_append_right).1
    rintro rfl
    exact hnot (hka ▸ List.mem_map_of_mem hb)

lemma filter_keyed_split {l₁ l₂ : List α} (hka : key a = k) (hne : ∀ b ∈ l₁ ++ l₂, key b ≠ k) :
    (l₁ ++ a :: l₂).filter (fun b => key b ≠ k) = l₁ ++ l₂ := by
  rw [List.filter_append, List.filter_cons_of_neg (by simpa using hka), ← List.filter_append]
  exact List.filter_eq_self.mpr fun b hb => by simpa using hne b hb

lemma map_keyed_split {l₁ l₂ : List α} (g : α → α) (hka : key a = k)
    (hne : ∀ b ∈ l₁ ++ l₂, key b ≠ k) :
    (l₁ ++ a :: l₂).map (fun b => if key b = k then g b else b) = l₁ ++ g a :: l₂ := by
  have hsame : ∀ l : List α, (∀ b ∈ l, key b ≠ k) →
      l.map (fun b => if key b = k then g b else b) = l := fun l hl =>
    (List.map_congr_left fun b hb => if_neg (hl b hb)).trans (List.map_id' l)
  rw [List.map_append, List.map_cons, if_pos hka,
    hsame l₁ fun b hb => hne b (List.mem_append_left _ hb),
    hsame l₂ fun b hb => hne b (List.mem_append_right _ hb)]

end ShellBox
