import Mathlib

/-!
# Masks

A word that is known under a mask is known under each part of the mask, and in each of its fields
that the mask covers.
-/

namespace ShellBox

variable {n : ℕ} {w m v m' v' : BitVec n}

lemma and_mask_of_subset (h : w &&& m = v) (hm : m &&& m' = m') (hv : v &&& m' = v') :
    w &&& m' = v' := by
  rw [← hv, ← h, BitVec.and_assoc, hm]

lemma and_mask_idem (h : w &&& m = v) : v &&& m = v := by
  rw [← h, BitVec.and_assoc, BitVec.and_self]

/-- Two masks that ask for different bits where both look. -/
lemma and_mask_ne (h : w &&& m = v) (hne : v &&& m' ≠ v' &&& m) : w &&& m' ≠ v' := by
  rintro rfl
  apply hne
  rw [← h, BitVec.and_assoc, BitVec.and_assoc, BitVec.and_comm m m']

/-- A field below the mask. -/
lemma extractLsb'_of_mask {lo len : ℕ} (h : w &&& m = v)
    (hm : m.extractLsb' lo len = BitVec.allOnes len) :
    w.extractLsb' lo len = v.extractLsb' lo len := by
  rw [← h, BitVec.extractLsb'_and, hm, BitVec.and_allOnes]

end ShellBox
