import Mathlib

/-!
# Lanes of a wide word

A wide word is a row of lanes of one width, the first of them at the low end. A lane can be read
and replaced, and the word is known once all its lanes are. Lanes of a narrower width lie inside
those of a wider one.
-/

namespace ShellBox

variable {n w : ℕ}

/-- Lane `i` of a word. -/
def lane (w : ℕ) (v : BitVec n) (i : ℕ) : BitVec w := v.extractLsb' (i * w) w

/-- The word with lane `i` replaced. -/
def setLane (v : BitVec n) (i : ℕ) (x : BitVec w) : BitVec n :=
  v &&& ~~~((BitVec.allOnes w).setWidth n <<< (i * w)) ||| x.setWidth n <<< (i * w)

variable {v v' : BitVec n} {x : BitVec w} {i j k : ℕ}

lemma getLsbD_lane : (lane w v i).getLsbD j = (decide (j < w) && v.getLsbD (i * w + j)) :=
  BitVec.getLsbD_extractLsb' (i * w) w v j

/-- Bits of a lane come from that lane only. -/
lemma getLsbD_setLane (hi : (i + 1) * w ≤ n) :
    (setLane v i x).getLsbD j =
      if i * w ≤ j ∧ j < (i + 1) * w then x.getLsbD (j - i * w) else v.getLsbD j := by
  rw [Nat.succ_mul] at hi ⊢
  rw [setLane, BitVec.getLsbD_or, BitVec.getLsbD_and, BitVec.getLsbD_not, BitVec.getLsbD_shiftLeft,
    BitVec.getLsbD_shiftLeft, BitVec.getLsbD_setWidth, BitVec.getLsbD_setWidth]
  by_cases hj : j < n
  · by_cases hlo : i * w ≤ j
    · by_cases hhi : j < i * w + w
      · simp [hj, hlo, hhi, show ¬ j < i * w by omega, show j - i * w < n by omega,
          show j - i * w < w by omega]
      · simp [hj, hlo, hhi, show ¬ j - i * w < w by omega,
          BitVec.getLsbD_of_ge x (j - i * w) (by omega)]
    · simp [hj, hlo, show j < i * w by omega]
  · rw [if_neg (by omega), BitVec.getLsbD_of_ge v j (by omega)]
    simp [hj]

/-- The lane that was replaced. -/
lemma lane_setLane_self (hi : (i + 1) * w ≤ n) : lane w (setLane v i x) i = x := by
  apply BitVec.eq_of_getLsbD_eq
  intro j hj
  rw [getLsbD_lane, getLsbD_setLane hi, if_pos ⟨by omega, by rw [Nat.succ_mul]; omega⟩]
  simp [hj]

/-- The other lanes. -/
lemma lane_setLane_of_ne (hi : (i + 1) * w ≤ n) (h : i ≠ j) :
    lane w (setLane v i x) j = lane w v j := by
  apply BitVec.eq_of_getLsbD_eq
  intro b hb
  rw [getLsbD_lane, getLsbD_lane, getLsbD_setLane hi, if_neg]
  rintro ⟨hlo, hhi⟩
  rcases Nat.lt_or_ge i j with hlt | hge
  · have := Nat.mul_le_mul_right w (show i + 1 ≤ j by omega)
    omega
  · have := Nat.mul_le_mul_right w (show j + 1 ≤ i by omega)
    rw [Nat.succ_mul] at this
    omega

lemma lane_setLane (hi : (i + 1) * w ≤ n) :
    lane w (setLane v i x) j = if i = j then x else lane w v j := by
  split_ifs with h
  · subst h
    exact lane_setLane_self hi
  · exact lane_setLane_of_ne hi h

@[simp] lemma lane_zero : lane w (0 : BitVec n) i = 0 := by
  apply BitVec.eq_of_getLsbD_eq
  intro j _
  simp [getLsbD_lane]

/-- A word of one lane. -/
lemma lane_full : lane n v 0 = v := by
  apply BitVec.eq_of_getLsbD_eq
  intro j hj
  rw [getLsbD_lane, decide_eq_true hj, Bool.true_and, Nat.zero_mul, Nat.zero_add]

/-- A word is what its lanes are. -/
lemma eq_of_lanes (hn : n ≤ k * w) (h : ∀ i < k, lane w v i = lane w v' i) : v = v' := by
  apply BitVec.eq_of_getLsbD_eq
  intro j hj
  have hw : 0 < w := Nat.pos_of_mul_pos_left (by omega : 0 < k * w)
  have hdiv : j / w < k := (Nat.div_lt_iff_lt_mul hw).2 (by omega)
  have hbit := congrArg (BitVec.getLsbD · (j % w)) (h (j / w) hdiv)
  have hsplit : j / w * w + j % w = j := Nat.div_add_mod' j w
  simpa only [getLsbD_lane, hsplit, decide_eq_true (Nat.mod_lt j hw), Bool.true_and] using hbit

lemma eq_iff_lanes (hn : n ≤ k * w) : v = v' ↔ ∀ i < k, lane w v i = lane w v' i :=
  ⟨fun h _ _ => (by rw [h]), eq_of_lanes hn⟩

/-- A narrow lane inside a wide one. -/
lemma lane_lane {m : ℕ} (hj : j < m) :
    lane w (lane (m * w) v i) j = lane w v (i * m + j) := by
  have hle := Nat.mul_le_mul_right w (show j + 1 ≤ m by omega)
  rw [Nat.succ_mul] at hle
  apply BitVec.eq_of_getLsbD_eq
  intro b hb
  rw [getLsbD_lane, getLsbD_lane, getLsbD_lane, Nat.add_mul, Nat.mul_assoc, Nat.add_assoc]
  simp [hb, show j * w + b < m * w by omega]

/-- The second of two wide lanes is zero, if the narrow lanes inside are. -/
lemma lane_one_eq_zero_iff : lane (k * w) v 1 = 0 ↔ ∀ i, k ≤ i → i < k + k → lane w v i = 0 := by
  have hinner {j : ℕ} (hj : j < k) : lane w (lane (k * w) v 1) j = lane w v (k + j) := by
    rw [lane_lane hj, Nat.one_mul]
  constructor
  · intro h i hki hi
    have hi' := hinner (show i - k < k by omega)
    rw [h, lane_zero, show k + (i - k) = i by omega] at hi'
    exact hi'.symm
  · intro h
    refine eq_of_lanes le_rfl fun j hj => ?_
    rw [hinner hj, lane_zero]
    exact h (k + j) (by omega) (by omega)

/-! ### Many lanes at once -/

/-- The word with its first `k` lanes replaced. -/
def overLanes (v : BitVec n) (k : ℕ) (f : ℕ → BitVec w) : BitVec n :=
  (List.range k).foldl (fun v i => setLane v i (f i)) v

/-- The word of `k` lanes, and nothing above them. -/
def ofLanes (n k : ℕ) (f : ℕ → BitVec w) : BitVec n := overLanes 0 k f

variable {f g : ℕ → BitVec w}

@[simp] lemma overLanes_zero : overLanes v 0 f = v := rfl

lemma overLanes_succ : overLanes v (k + 1) f = setLane (overLanes v k f) k (f k) := by
  rw [overLanes, List.range_succ, List.foldl_append]
  rfl

lemma lane_overLanes (hk : k * w ≤ n) :
    lane w (overLanes v k f) i = if i < k then f i else lane w v i := by
  induction k with
  | zero => simp
  | succ k ih =>
    have hle : k * w ≤ n := (Nat.mul_le_mul_right w (Nat.le_succ k)).trans hk
    rw [overLanes_succ, lane_setLane hk, ih hle]
    rcases Nat.lt_trichotomy i k with hlt | rfl | hgt
    · rw [if_neg (by omega), if_pos hlt, if_pos (by omega)]
    · rw [if_pos rfl, if_pos (by omega)]
    · rw [if_neg (by omega), if_neg (by omega), if_neg (by omega)]

lemma overLanes_congr (h : ∀ i < k, f i = g i) : overLanes v k f = overLanes v k g := by
  induction k with
  | zero => rfl
  | succ k ih =>
    rw [overLanes_succ, overLanes_succ, ih fun i hi => h i (by omega), h k (by omega)]

lemma lane_ofLanes (hk : k * w ≤ n) : lane w (ofLanes n k f) i = if i < k then f i else 0 := by
  rw [ofLanes, lane_overLanes hk, lane_zero]

/-- A word of one lane is the lane. -/
lemma ofLanes_one {f : ℕ → BitVec n} : ofLanes n 1 f = f 0 := by
  have h : lane n (ofLanes n 1 f) 0 = f 0 := lane_ofLanes (Nat.one_mul n).le
  rwa [lane_full] at h

lemma ofLanes_congr (h : ∀ i < k, f i = g i) : ofLanes n k f = ofLanes n k g := overLanes_congr h

/-- The narrow lanes of what was replaced. -/
lemma lane_overLanes_narrow {m : ℕ} {f : ℕ → BitVec (m * w)} (hm : 0 < m) (hk : k * (m * w) ≤ n) :
    lane w (overLanes v k f) j = if j / m < k then lane w (f (j / m)) (j % m) else lane w v j := by
  have hinner (v : BitVec n) : lane w v j = lane w (lane (m * w) v (j / m)) (j % m) := by
    rw [lane_lane (Nat.mod_lt j hm), Nat.div_add_mod']
  rw [hinner, hinner v, lane_overLanes hk]
  split_ifs <;> rfl

/-- Only the lanes below `k` are left to compare. -/
lemma overLanes_eq_overLanes_iff (hk : k * w ≤ n) :
    overLanes v k f = overLanes v k g ↔ ∀ i < k, f i = g i := by
  refine ⟨fun h i hi => ?_, overLanes_congr⟩
  have hlane := congrArg (lane w · i) h
  simpa [lane_overLanes hk, hi] using hlane

/-- The lanes from `lo` on as zeros. -/
def zeroFrom (w lo k : ℕ) (v : BitVec n) : BitVec n :=
  (List.range k).foldl (fun v i => setLane v (lo + i) (0 : BitVec w)) v

lemma lane_zeroFrom {lo : ℕ} (hk : (lo + k) * w ≤ n) :
    lane w (zeroFrom w lo k v) i = if lo ≤ i ∧ i < lo + k then 0 else lane w v i := by
  induction k with
  | zero => simp [zeroFrom, show ¬ (lo ≤ i ∧ i < lo) by omega]
  | succ k ih =>
    have hle : (lo + k) * w ≤ n := (Nat.mul_le_mul_right w (Nat.le_succ (lo + k))).trans hk
    have hsucc : zeroFrom w lo (k + 1) v = setLane (zeroFrom w lo k v) (lo + k) (0 : BitVec w) := by
      rw [zeroFrom, List.range_succ, List.foldl_append]
      rfl
    rw [hsucc, lane_setLane (i := lo + k) hk, ih hle]
    split_ifs <;> first | rfl | omega

/-- What was replaced below and cleared above is all there is. -/
lemma zeroFrom_overLanes {m : ℕ} (hn : n = (k + m) * w) :
    zeroFrom w k m (overLanes v k f) = ofLanes n k f := by
  have hk : k * w ≤ n := by
    rw [hn]
    exact Nat.mul_le_mul_right w (by omega)
  refine eq_of_lanes hn.le fun i hi => ?_
  rw [lane_zeroFrom hn.ge, lane_overLanes hk, lane_ofLanes hk]
  split_ifs <;> first | rfl | omega

/-- Where every lane is replaced, nothing of the old word is left. -/
lemma overLanes_full (hn : n = k * w) : overLanes v k f = ofLanes n k f := by
  refine eq_of_lanes hn.le fun i hi => ?_
  rw [lane_overLanes hn.ge, lane_ofLanes hn.ge, if_pos hi, if_pos hi]

/-- What is left of the old word does no harm, if it was zero. -/
lemma overLanes_eq_ofLanes_iff {m : ℕ} (hn : n = (k + m) * w) :
    overLanes v k f = ofLanes n k f ↔ ∀ i, k ≤ i → i < k + m → lane w v i = 0 := by
  have hk : k * w ≤ n := by
    rw [hn]
    exact Nat.mul_le_mul_right w (by omega)
  rw [eq_iff_lanes hn.le]
  constructor
  · intro h i hki hi
    have hlane := h i hi
    rwa [lane_overLanes hk, lane_ofLanes hk, if_neg (by omega), if_neg (by omega)] at hlane
  · intro h i hi
    rw [lane_overLanes hk, lane_ofLanes hk]
    split_ifs with hlt
    · rfl
    · exact h i (by omega) hi

end ShellBox
