import Mathlib

/-!
# Counts in signed words

A call that returns a count in a signed word returns it as it is if it is below half of the range
of the word, and something negative, which looks like an error, otherwise.
-/

namespace ShellBox

variable {w n : ℕ}

lemma toInt_ofNat_of_lt (h : 2 * n < 2 ^ w) : (BitVec.ofNat w n).toInt = n := by
  rw [BitVec.toInt_eq_toNat_cond, BitVec.toNat_ofNat, Nat.mod_eq_of_lt (by omega), if_pos h]

lemma toInt_ofNat_neg (h : n < 2 ^ w) (hbig : 2 ^ w ≤ 2 * n) : (BitVec.ofNat w n).toInt < 0 := by
  rw [BitVec.toInt_eq_toNat_cond, BitVec.toNat_ofNat, Nat.mod_eq_of_lt h, if_neg (by omega)]
  have hcast : (n : ℤ) < ((2 ^ w : ℕ) : ℤ) := by exact_mod_cast h
  linarith

lemma toInt_ofNat_nonneg_iff (h : n < 2 ^ w) : 0 ≤ (BitVec.ofNat w n).toInt ↔ 2 * n < 2 ^ w := by
  constructor
  · intro hnonneg
    by_contra hbig
    have := toInt_ofNat_neg h (by omega)
    omega
  · intro hsmall
    rw [toInt_ofNat_of_lt hsmall]
    exact Int.natCast_nonneg n

lemma toInt_ofNat_eq_zero_iff (h : n < 2 ^ w) : (BitVec.ofNat w n).toInt = 0 ↔ n = 0 := by
  rcases Nat.lt_or_ge (2 * n) (2 ^ w) with hsmall | hbig
  · rw [toInt_ofNat_of_lt hsmall]
    exact Int.natCast_eq_zero
  · have := toInt_ofNat_neg h hbig
    have hpos : 0 < 2 ^ w := Nat.two_pow_pos w
    omega

end ShellBox
