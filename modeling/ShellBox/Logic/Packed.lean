import Mathlib

/-!
# Words packed of fields

Several fields are put side by side into a word and taken out again, each by its place. A signed
field stands above the others and is taken out by an arithmetic shift.
-/

namespace ShellBox

variable {w n lo len k : ℕ}

/-- `(uint64_t) x << k` -/
def packAt (k : ℕ) (x : BitVec w) : BitVec 64 := x.setWidth 64 <<< k

/-- A field comes out at its own place, if nothing of it is cut off. -/
lemma extract_packAt (x : BitVec w) (hk : k + len ≤ 64) :
    (packAt k x).extractLsb' k len = x.setWidth len := by
  ext i hi
  have hki : k + i < 64 := by omega
  simp [packAt, hki]

/-- Below a field there is nothing of it. -/
lemma extract_packAt_below (x : BitVec w) (h : lo + len ≤ k) :
    (packAt k x).extractLsb' lo len = 0 := by
  ext i hi
  have hlt : lo + i < k := by omega
  simp [packAt, BitVec.getLsbD_shiftLeft, hlt]

/-- Nor above it. -/
lemma extract_packAt_above (x : BitVec w) (h : k + w ≤ lo) :
    (packAt k x).extractLsb' lo len = 0 := by
  ext i hi
  have hle : w ≤ lo + i - k := by omega
  simp [packAt, BitVec.getLsbD_shiftLeft, BitVec.getLsbD_of_ge _ _ hle]

section

variable {w₁ w₂ w₃ : ℕ} (x : BitVec w₁) (y : BitVec w₂) (z : BitVec w₃)

/-- Two fields in bytes of their own. -/
lemma extract_pack₂ (h₁ : w₁ ≤ 8) (h₂ : w₂ ≤ 56) :
    (packAt 0 x ||| packAt 8 y).extractLsb' 0 w₁ = x ∧
      (packAt 0 x ||| packAt 8 y).extractLsb' 8 w₂ = y := by
  constructor
  · rw [BitVec.extractLsb'_or, extract_packAt x (by omega), extract_packAt_below y (by omega),
      BitVec.setWidth_eq]
    exact BitVec.or_zero
  · rw [BitVec.extractLsb'_or, extract_packAt_above x (by omega), extract_packAt y (by omega),
      BitVec.setWidth_eq]
    exact BitVec.zero_or

/-- Three of them. -/
lemma extract_pack₃ (h₁ : w₁ ≤ 8) (h₂ : w₂ ≤ 8) (h₃ : w₃ ≤ 48) :
    (packAt 0 x ||| packAt 8 y ||| packAt 16 z).extractLsb' 0 w₁ = x ∧
      (packAt 0 x ||| packAt 8 y ||| packAt 16 z).extractLsb' 8 w₂ = y ∧
      (packAt 0 x ||| packAt 8 y ||| packAt 16 z).extractLsb' 16 w₃ = z := by
  obtain ⟨hx, hy⟩ := extract_pack₂ x y h₁ (by omega)
  refine ⟨?_, ?_, ?_⟩
  · rw [BitVec.extractLsb'_or, hx, extract_packAt_below z (by omega)]
    exact BitVec.or_zero
  · rw [BitVec.extractLsb'_or, hy, extract_packAt_below z (by omega)]
    exact BitVec.or_zero
  · rw [BitVec.extractLsb'_or, BitVec.extractLsb'_or, extract_packAt_above x (by omega),
      extract_packAt_above y (by omega), extract_packAt z (by omega), BitVec.setWidth_eq]
    exact (congrArg (· ||| z) BitVec.or_zero).trans BitVec.zero_or

/-- Four of them. -/
lemma extract_pack₄ {w₄ : ℕ} (u : BitVec w₄) (h₁ : w₁ ≤ 8) (h₂ : w₂ ≤ 8) (h₃ : w₃ ≤ 8)
    (h₄ : w₄ ≤ 40) :
    let packed := packAt 0 x ||| packAt 8 y ||| packAt 16 z ||| packAt 24 u
    packed.extractLsb' 0 w₁ = x ∧ packed.extractLsb' 8 w₂ = y ∧ packed.extractLsb' 16 w₃ = z ∧
      packed.extractLsb' 24 w₄ = u := by
  obtain ⟨hx, hy, hz⟩ := extract_pack₃ x y z h₁ h₂ (by omega)
  refine ⟨?_, ?_, ?_, ?_⟩
  · rw [BitVec.extractLsb'_or, hx, extract_packAt_below u (by omega)]
    exact BitVec.or_zero
  · rw [BitVec.extractLsb'_or, hy, extract_packAt_below u (by omega)]
    exact BitVec.or_zero
  · rw [BitVec.extractLsb'_or, hz, extract_packAt_below u (by omega)]
    exact BitVec.or_zero
  · rw [BitVec.extractLsb'_or, BitVec.extractLsb'_or, BitVec.extractLsb'_or,
      extract_packAt_above x (by omega), extract_packAt_above y (by omega),
      extract_packAt_above z (by omega), extract_packAt u (by omega), BitVec.setWidth_eq]
    simp

end

/-! ### Signed fields -/

/-- The word is that of a signed number of `n` bits: from its sign on all bits are equal. -/
def SignedIn (n : ℕ) (x : BitVec 64) : Prop :=
  ∀ i < 64, n ≤ i + 1 → x.getLsbD i = x.getLsbD 63

variable {x : BitVec 64}

lemma signedIn_signExtend (y : BitVec w) (h : w ≤ n) (hw : w < 64) :
    SignedIn n (y.signExtend 64) := by
  intro i hi hn
  have hmsb : y.getLsbD (w - 1) = y.msb := (BitVec.msb_eq_getLsbD_last y).symm
  rw [BitVec.getLsbD_signExtend, BitVec.getLsbD_signExtend, if_neg (by omega : ¬ 63 < w)]
  by_cases hlt : i < w
  · obtain rfl : i = w - 1 := by omega
    rw [if_pos hlt, hmsb]
    simp
    omega
  · simp [hi, hlt]

lemma SignedIn.mono {m : ℕ} (h : SignedIn n x) (hm : n ≤ m) : SignedIn m x :=
  fun i hi hle => h i hi (hm.trans hle)

lemma SignedIn.shiftLeft {s : ℕ} (h : SignedIn n x) (hn : 0 < n) (hs : n + s ≤ 64) :
    SignedIn (n + s) (x <<< s) := by
  intro i hi hle
  have hi' := h (i - s) (by omega) (by omega)
  have hlast := h (63 - s) (by omega) (by omega)
  rw [BitVec.getLsbD_shiftLeft, BitVec.getLsbD_shiftLeft, hi', hlast]
  simp [hi, show ¬ i < s by omega, show ¬ 63 < s by omega]

lemma sshiftRight_shiftLeft (h : SignedIn n x) (hpos : 0 < n) (hn : n + k ≤ 64) :
    (x <<< k).sshiftRight k = x := by
  apply BitVec.eq_of_getLsbD_eq
  intro i hi
  rw [BitVec.getLsbD_sshiftRight, BitVec.msb_eq_getLsbD_last, BitVec.getLsbD_shiftLeft,
    BitVec.getLsbD_shiftLeft]
  by_cases hki : k + i < 64
  · simp [hi, hki]
  · -- what was shifted out is the sign again
    have hlast := h (63 - k) (by omega) (by omega)
    rw [if_neg hki, h i hi (by omega), hlast]
    simp [show ¬ 63 < k by omega]
    omega

/-- A signed number in a field of its own. -/
lemma signExtend_setWidth (h : SignedIn n x) (hpos : 0 < n) (hn : n ≤ w) (hw : w < 64) :
    (x.setWidth w).signExtend 64 = x := by
  apply BitVec.eq_of_getLsbD_eq
  intro i hi
  rw [BitVec.getLsbD_signExtend, decide_eq_true hi, Bool.true_and]
  split_ifs with hlt
  · rw [BitVec.getLsbD_setWidth, decide_eq_true hlt, Bool.true_and]
  · rw [BitVec.msb_setWidth, h (w - 1) (by omega) (by omega), h i hi (by omega)]
    simp
    omega

/-- The signed field at the top. -/
lemma sshiftRight_pack {y : BitVec 64} (hy : y.sshiftRight k = 0) (h : SignedIn n x)
    (hpos : 0 < n) (hn : n + k ≤ 64) : (y ||| x <<< k).sshiftRight k = x := by
  rw [BitVec.sshiftRight_or_distrib, hy, sshiftRight_shiftLeft h hpos hn]
  exact BitVec.zero_or

lemma sshiftRight_packAt (x : BitVec w) (h : lo + w ≤ k) (hk : k < 64) :
    (packAt lo x).sshiftRight k = 0 := by
  apply BitVec.eq_of_getLsbD_eq
  intro i hi
  rw [BitVec.getLsbD_sshiftRight, BitVec.msb_eq_getLsbD_last, packAt, BitVec.getLsbD_shiftLeft,
    BitVec.getLsbD_shiftLeft, BitVec.getLsbD_setWidth, BitVec.getLsbD_setWidth,
    BitVec.getLsbD_of_ge x _ (by omega : w ≤ k + i - lo),
    BitVec.getLsbD_of_ge x _ (by omega : w ≤ 64 - 1 - lo)]
  simp

end ShellBox
