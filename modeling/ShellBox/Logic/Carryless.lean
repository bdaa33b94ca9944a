import Mathlib

/-!
# Multiplication without carries

A word is a polynomial over the field of two elements, its bits the coefficients. Words are then
added by exclusive or, and the product is the sum of the one word shifted by each bit of the other.
What holds of polynomials holds of the product: it commutes, and it can be cancelled.
-/

namespace ShellBox

open Polynomial Finset

variable {m n p : ℕ}

/-- The polynomial of a word. -/
noncomputable def toPoly (v : BitVec n) : (ZMod 2)[X] :=
  ∑ i ∈ range n, if v.getLsbD i then X ^ i else 0

lemma coeff_toPoly (v : BitVec n) (d : ℕ) :
    (toPoly v).coeff d = if v.getLsbD d then 1 else 0 := by
  have hterm (i : ℕ) : (if v.getLsbD i then (X : (ZMod 2)[X]) ^ i else 0).coeff d =
      if i = d then (if v.getLsbD i then 1 else 0) else 0 := by
    by_cases hi : v.getLsbD i
    · rw [if_pos hi, if_pos hi, coeff_X_pow]
      exact if_congr eq_comm rfl rfl
    · rw [if_neg hi, if_neg hi, coeff_zero, ite_self]
  rw [toPoly, finsetSum_coeff, sum_congr rfl fun i _ => hterm i, sum_ite_eq' (range n) d]
  by_cases hd : d < n
  · rw [if_pos (mem_range.2 hd)]
  · rw [if_neg (mt mem_range.1 hd), BitVec.getLsbD_of_ge v d (by omega), if_neg (by simp)]

/-- No two words have the same polynomial. -/
lemma toPoly_injective : Function.Injective (toPoly (n := n)) := by
  intro v v' h
  apply BitVec.eq_of_getLsbD_eq
  intro i _
  have hi := congrArg (coeff · i) h
  simp only [coeff_toPoly] at hi
  cases hv : v.getLsbD i <;> cases hv' : v'.getLsbD i <;> simp_all

@[simp] lemma toPoly_zero : toPoly (0 : BitVec n) = 0 := by
  ext d
  simp [coeff_toPoly]

lemma toPoly_eq_zero {v : BitVec n} : toPoly v = 0 ↔ v = 0 := by
  rw [← toPoly_zero (n := n)]
  exact toPoly_injective.eq_iff

/-- The exclusive or is the sum. -/
lemma toPoly_xor (v v' : BitVec n) : toPoly (v ^^^ v') = toPoly v + toPoly v' := by
  ext d
  rw [coeff_add, coeff_toPoly, coeff_toPoly, coeff_toPoly, BitVec.getLsbD_xor]
  cases v.getLsbD d <;> cases v'.getLsbD d
  · rfl
  · rfl
  · rfl
  · exact (CharTwo.add_self_eq_zero (1 : ZMod 2)).symm

/-- A shift multiplies by a power of `X`, as long as nothing is shifted out. -/
lemma toPoly_shiftLeft (v : BitVec m) {j : ℕ} (h : m + j ≤ p) :
    toPoly (v.setWidth p <<< j) = toPoly v * X ^ j := by
  ext d
  rw [coeff_toPoly, coeff_mul_X_pow', coeff_toPoly, BitVec.getLsbD_shiftLeft,
    BitVec.getLsbD_setWidth]
  by_cases hjd : j ≤ d
  · by_cases hd : d < p
    · simp [hjd, hd, show ¬ d < j by omega, show d - j < p by omega]
    · simp [hd, BitVec.getLsbD_of_ge v (d - j) (by omega)]
  · simp [hjd, show d < j by omega]

/-- `a` shifted by each of the lowest `k` bits of `b`. -/
def clmulSteps (p : ℕ) (a : BitVec m) (b : BitVec n) (k : ℕ) : BitVec p :=
  (List.range k).foldl (fun r j => if b.getLsbD j then r ^^^ a.setWidth p <<< j else r) 0

/-- The product without carries. -/
def clmul (p : ℕ) (a : BitVec m) (b : BitVec n) : BitVec p := clmulSteps p a b n

variable {a a' : BitVec m} {b : BitVec n}

lemma clmulSteps_succ (k : ℕ) :
    clmulSteps p a b (k + 1) =
      if b.getLsbD k then clmulSteps p a b k ^^^ a.setWidth p <<< k else clmulSteps p a b k := by
  rw [clmulSteps, List.range_succ, List.foldl_append]
  rfl

lemma toPoly_clmulSteps {k : ℕ} (hk : k ≤ n) (hp : m + n ≤ p) :
    toPoly (clmulSteps p a b k) =
      toPoly a * ∑ i ∈ range k, if b.getLsbD i then (X : (ZMod 2)[X]) ^ i else 0 := by
  induction k with
  | zero =>
    rw [sum_range_zero, mul_zero]
    exact toPoly_zero
  | succ k ih =>
    rw [clmulSteps_succ, sum_range_succ, mul_add]
    split_ifs
    · rw [toPoly_xor, ih (by omega), toPoly_shiftLeft a (by omega)]
    · rw [ih (by omega), mul_zero, add_zero]

/-- The bit as a mask asks for it. -/
lemma and_one_shiftLeft_ne_zero {x : BitVec p} {j : ℕ} (hj : j < p) :
    x &&& 1#p <<< j ≠ 0 ↔ x.getLsbD j = true := by
  rw [← BitVec.twoPow_eq, BitVec.and_twoPow]
  split_ifs with h
  · exact iff_of_true (fun h0 => by simpa [hj] using congrArg (BitVec.getLsbD · j) h0) h
  · exact iff_of_false (fun h0 => h0 rfl) h

/-- It is the product of polynomials. -/
lemma toPoly_clmul (hp : m + n ≤ p) : toPoly (clmul p a b) = toPoly a * toPoly b :=
  toPoly_clmulSteps le_rfl hp

lemma clmul_comm (hp : m + n ≤ p) : clmul p a b = clmul p b a := by
  apply toPoly_injective
  rw [toPoly_clmul hp, toPoly_clmul (by omega), mul_comm]

/-- Equal products with one factor in common. -/
lemma clmul_left_inj (hp : m + n ≤ p) : clmul p a b = clmul p a' b ↔ b = 0 ∨ a = a' := by
  rw [← toPoly_injective.eq_iff, toPoly_clmul hp, toPoly_clmul hp, mul_eq_mul_right_iff,
    toPoly_injective.eq_iff, toPoly_eq_zero, or_comm]

/-- Equal squares. -/
lemma clmul_self_inj (hp : m + m ≤ p) : clmul p a a = clmul p a' a' ↔ a = a' := by
  rw [← toPoly_injective.eq_iff, toPoly_clmul hp, toPoly_clmul hp, ← sq, ← sq,
    ← toPoly_injective.eq_iff]
  refine ⟨fun h => ?_, fun h => by rw [h]⟩
  -- in characteristic two the difference of the squares is the square of the difference
  have hsq : (toPoly a + toPoly a') ^ 2 = 0 := by
    rw [CharTwo.add_sq, h, CharTwo.add_self_eq_zero]
  exact CharTwo.add_eq_zero.1 (pow_eq_zero_iff two_ne_zero |>.1 hsq)

end ShellBox
