import Mathlib

/-!
# Sums of rotations

Rotations of a word add up and respect the exclusive or. A word added to two rotations of itself is
a linear map whose square is of the same kind, with the rotations doubled.
-/

namespace ShellBox

variable {w : ℕ} {x y : BitVec w} {a b : ℕ}

/-- A bit of a rotated word, counted around the word. -/
lemma getLsbD_rotateLeft_around {i : ℕ} (hi : i < w) :
    (x.rotateLeft a).getLsbD i = x.getLsbD ((i + (w - a % w)) % w) := by
  have ha : a % w < w := Nat.mod_lt a (by omega)
  rw [BitVec.getLsbD_rotateLeft]
  by_cases h : i < a % w
  · rw [decide_eq_true h, cond_true, Nat.mod_eq_of_lt (show i + (w - a % w) < w by omega),
      Nat.add_comm]
  · rw [decide_eq_false h, cond_false, decide_eq_true hi, Bool.true_and,
      show i + (w - a % w) = i - a % w + w by omega, Nat.add_mod_right,
      Nat.mod_eq_of_lt (show i - a % w < w by omega)]

lemma rotateLeft_xor : (x ^^^ y).rotateLeft a = x.rotateLeft a ^^^ y.rotateLeft a := by
  apply BitVec.eq_of_getLsbD_eq
  intro i hi
  rw [BitVec.getLsbD_xor, getLsbD_rotateLeft_around hi, getLsbD_rotateLeft_around hi,
    getLsbD_rotateLeft_around hi, BitVec.getLsbD_xor]

lemma rotateLeft_rotateLeft : (x.rotateLeft a).rotateLeft b = x.rotateLeft (a + b) := by
  apply BitVec.eq_of_getLsbD_eq
  intro i hi
  have hw : 0 < w := by omega
  have ha : a % w < w := Nat.mod_lt a hw
  have hb : b % w < w := Nat.mod_lt b hw
  have hsum : (a + b) % w = if a % w + b % w < w then a % w + b % w else a % w + b % w - w := by
    rw [Nat.add_mod]
    split_ifs with h
    · exact Nat.mod_eq_of_lt h
    · rw [Nat.mod_eq_sub_mod (by omega), Nat.mod_eq_of_lt (by omega)]
  rw [getLsbD_rotateLeft_around hi, getLsbD_rotateLeft_around (Nat.mod_lt _ hw),
    getLsbD_rotateLeft_around hi, Nat.mod_add_mod, hsum]
  congr 1
  split_ifs with h
  · rw [show i + (w - b % w) + (w - a % w) = i + (w - (a % w + b % w)) + w by omega,
      Nat.add_mod_right]
  · rw [show i + (w - b % w) + (w - a % w) = i + (w - (a % w + b % w - w)) by omega]

/-- A full turn. -/
lemma rotateLeft_self : x.rotateLeft (a + w) = x.rotateLeft a := by
  rw [← BitVec.rotateLeft_mod_eq_rotateLeft (r := a + w), Nat.add_mod_right,
    BitVec.rotateLeft_mod_eq_rotateLeft]

lemma rotateLeft_injective : Function.Injective fun x : BitVec w => x.rotateLeft a := by
  rcases Nat.eq_zero_or_pos w with rfl | hw
  · exact fun x y _ => Subsingleton.elim x y
  intro x y h
  have ha : a % w < w := Nat.mod_lt a hw
  -- the rest of the turn brings the word back
  have hback (z : BitVec w) : (z.rotateLeft a).rotateLeft (w - a % w) = z := by
    rw [rotateLeft_rotateLeft, ← BitVec.rotateLeft_mod_eq_rotateLeft,
      show a + (w - a % w) = a - a % w + w by have := Nat.mod_le a w; omega, Nat.add_mod_right,
      Nat.sub_mod_eq_zero_of_mod_eq (Nat.mod_mod a w).symm]
    apply BitVec.eq_of_getLsbD_eq
    intro i hi
    rw [getLsbD_rotateLeft_around hi, Nat.zero_mod, Nat.sub_zero, Nat.add_mod_right,
      Nat.mod_eq_of_lt hi]
  rw [← hback x, ← hback y]
  exact congrArg (BitVec.rotateLeft · (w - a % w)) h

/-- A word added to two of its rotations. -/
def xorRot (a b : ℕ) (x : BitVec w) : BitVec w := x ^^^ x.rotateLeft a ^^^ x.rotateLeft b

lemma xorRot_xorRot : xorRot a b (xorRot a b x) = xorRot (a + a) (b + b) x := by
  unfold xorRot
  simp only [rotateLeft_xor, rotateLeft_rotateLeft, Nat.add_comm b a]
  generalize x.rotateLeft a = p, x.rotateLeft b = q, x.rotateLeft (a + a) = r,
    x.rotateLeft (a + b) = s, x.rotateLeft (b + b) = t
  -- the mixed rotations are added twice
  apply BitVec.eq_of_getLsbD_eq
  intro i _
  simp only [BitVec.getLsbD_xor]
  cases x.getLsbD i <;> cases p.getLsbD i <;> cases q.getLsbD i <;> cases s.getLsbD i <;> simp

end ShellBox
