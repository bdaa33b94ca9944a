import ShellBox.Kernel.Memory.Region

/-!
# Removing reservations, page by page

After a range has been removed, its pages are not reserved any more, and every other page is
reserved with the flags it had before.
-/

namespace ShellBox

variable {tailOk : MemReservation → Bool} {start pages q : ℕ} {rs : List MemReservation}

lemma memFindReservation_eq_none (h : ∀ r ∈ rs, r.covers q = false) :
    memFindReservation rs q = none := by
  rw [memFindReservation, List.find?_eq_none]
  intro r hr
  simp [h r hr]

lemma memRemoveReservations_outside (hok : ∀ r, tailOk r = true) :
    ∀ r ∈ memRemoveReservations tailOk start pages rs,
      r.start + r.pages ≤ start ∨ start + pages ≤ r.start := by
  induction rs with
  | nil => simp [memRemoveReservations]
  | cons r rs ih =>
    unfold memRemoveReservations
    split_ifs with h₀ h₁ h₂ htail h₃
    · exact List.forall_mem_cons.mpr ⟨h₀.symm, ih⟩
    · exact ih
    · refine List.forall_mem_cons.mpr ⟨Or.inl ?_, List.forall_mem_cons.mpr ⟨Or.inr le_rfl, ih⟩⟩
      simp only [MemReservation.below]
      omega
    · exact absurd (hok r) htail
    · refine List.forall_mem_cons.mpr ⟨Or.inl ?_, ih⟩
      simp only [MemReservation.below]
      omega
    · exact List.forall_mem_cons.mpr ⟨Or.inr le_rfl, ih⟩

/-- Removing a range of pages from the reservations is exact on every page, if no allocation
fails. -/
theorem memRemoveReservations_exact (hok : ∀ r, tailOk r = true) (start pages : ℕ)
    (rs : List MemReservation) (q : ℕ) :
    (memFindReservation (memRemoveReservations tailOk start pages rs) q).map (·.flags) =
      if start ≤ q ∧ q < start + pages then none
      else (memFindReservation rs q).map (·.flags) := by
  split_ifs with hq
  · rw [memFindReservation_eq_none, Option.map_none]
    intro r hr
    have hout := memRemoveReservations_outside hok r hr
    rw [Bool.eq_false_iff, ne_eq, MemReservation.covers_iff]
    omega
  · exact memRemoveReservations_flags rs hq

/-- A reservation of ten pages that grows down, in front of one of twenty pages. -/
def nestedReservations : List MemReservation :=
  [⟨0, 10, pGrowsdown, by decide, fun _ => rfl⟩, ⟨0, 20, pAnonymous, by decide, fun _ => rfl⟩]

/-- A hole of two pages splits both, and the page behind it still grows down. -/
theorem memRemoveReservations_exact_split :
    (memFindReservation (memRemoveReservations (fun _ => true) 4 2 nestedReservations) 6).map
      (·.flags) = some pGrowsdown :=
  memRemoveReservations_exact (fun _ => rfl) 4 2 nestedReservations 6

end ShellBox
