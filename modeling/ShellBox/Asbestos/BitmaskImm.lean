import Mathlib

/-!
# Immediates that are masks

A logical instruction has its immediate as 13 bits. They stand for a run of ones in an element of 2
to 64 bits, which is rotated in its element and repeated through the word.
-/

namespace ShellBox

/-- The highest bit of `(n << 6) | (~imms & 0x3f)`, or 0. -/
def bitmaskLen (n : BitVec 1) (imms : BitVec 6) : ℕ :=
  (((List.range 7).reverse.find? fun i => (n ++ ~~~imms).getLsbD i)).getD 0

/-- The run of ones, rotated in its element. -/
def bitmaskPattern (size s r : ℕ) : BitVec 64 :=
  let pattern := 1#64 <<< (s + 1) - 1#64
  if 0 < r then
    (pattern >>> r ||| pattern <<< (size - r)) &&&
      if size < 64 then 1#64 <<< size - 1#64 else BitVec.allOnes 64
  else pattern

def decodeBitmaskImm (n : BitVec 1) (imms immr : BitVec 6) (is64 : Bool) : Option (BitVec 64) :=
  let len := bitmaskLen n imms
  if len < 1 then none
  else
    let size := 2 ^ len
    let s := imms.toNat % size
    let r := immr.toNat % size
    if s = size - 1 then none
    else
      let pattern := bitmaskPattern size s r
      let result := (List.range (64 / size)).foldl (fun acc i => acc ||| pattern <<< (i * size)) 0
      some (if is64 then result else result &&& 0xffffffff#64)

variable {size s r i k : ℕ}

lemma getLsbD_ones (hk : k ≤ 63) : (1#64 <<< k - 1#64).getLsbD i = decide (i < k) := by
  have hpow : 2 ^ k < 2 ^ 64 := Nat.pow_lt_pow_right (by decide) (by omega)
  have hone : 1 ≤ 2 ^ k := Nat.one_le_two_pow
  have hnat : (1#64 <<< k - 1#64).toNat = 2 ^ k - 1 := by
    rw [BitVec.toNat_sub, BitVec.toNat_shiftLeft, Nat.shiftLeft_eq, BitVec.toNat_ofNat,
      Nat.one_mod_two_pow (by decide), one_mul]
    omega
  rw [BitVec.getLsbD, hnat, Nat.testBit_two_pow_sub_one]

lemma getLsbD_bitmaskPattern (hsize : size ≤ 64) (hs : s + 1 < size) (hr : r < size) (hi : i < 64) :
    (bitmaskPattern size s r).getLsbD i = decide (i < size ∧ (i + r) % size ≤ s) := by
  have hones (j : ℕ) : (1#64 <<< (s + 1) - 1#64).getLsbD j = decide (j < s + 1) :=
    getLsbD_ones (by omega)
  have hmask : (if size < 64 then 1#64 <<< size - 1#64 else BitVec.allOnes 64).getLsbD i =
      decide (i < size) := by
    split_ifs with h
    · exact getLsbD_ones (by omega)
    · rw [BitVec.getLsbD_allOnes, decide_eq_decide]
      omega
  have hmod (h : i < size) : (i + r) % size = if i + r < size then i + r else i + r - size := by
    split_ifs with hlt
    · exact Nat.mod_eq_of_lt hlt
    · rw [Nat.mod_eq_sub_mod (by omega), Nat.mod_eq_of_lt (by omega)]
  unfold bitmaskPattern
  rw [Bool.eq_iff_iff]
  by_cases hpos : 0 < r
  · simp only [if_pos hpos, BitVec.getLsbD_and, BitVec.getLsbD_or, BitVec.getLsbD_ushiftRight,
      BitVec.getLsbD_shiftLeft, hones, hmask, Bool.and_eq_true, Bool.or_eq_true,
      Bool.not_eq_true', decide_eq_true_eq, decide_eq_false_iff_not]
    by_cases h : i < size
    · rw [hmod h]
      split_ifs <;> omega
    · omega
  · simp only [if_neg hpos, hones, decide_eq_true_eq]
    by_cases h : i < size
    · rw [hmod h]
      split_ifs <;> omega
    · omega

/-- The element is repeated, from below. -/
lemma getLsbD_repeat (hsize : size ≤ 64) (hs : s + 1 < size) (hr : r < size) (hi : i < 64) :
    ((List.range k).foldl (fun acc j => acc ||| bitmaskPattern size s r <<< (j * size))
        0).getLsbD i =
      decide (i < k * size ∧ (i + r) % size ≤ s) := by
  induction k with
  | zero => simp
  | succ k ih =>
    rw [List.range_succ, List.foldl_append]
    simp only [List.foldl_cons, List.foldl_nil, BitVec.getLsbD_or, BitVec.getLsbD_shiftLeft, ih, hi,
      Nat.succ_mul]
    by_cases h : i < k * size
    · simp [h, show i < k * size + size by omega]
    · rw [getLsbD_bitmaskPattern hsize hs hr (by omega)]
      have hmod : (i - k * size + r) % size = (i + r) % size := by
        rw [← Nat.add_mul_mod_self_right (i - k * size + r) k size]
        congr 1
        omega
      have hlt : i - k * size < size ↔ i < k * size + size := by omega
      simp [h, hmod, hlt]

/-- The bits of an immediate. -/
def IsBitmask (is64 : Bool) (size s r : ℕ) (v : BitVec 64) : Prop :=
  ∀ i < 64, v.getLsbD i = decide ((is64 = true ∨ i < 32) ∧ (i + r) % size ≤ s)

lemma bitmaskLen_le (n : BitVec 1) (imms : BitVec 6) : bitmaskLen n imms ≤ 6 := by
  unfold bitmaskLen
  cases h : (List.range 7).reverse.find? fun i => (n ++ ~~~imms).getLsbD i with
  | none => exact Nat.zero_le 6
  | some i =>
    have hi := List.mem_range.mp (List.mem_reverse.mp (List.mem_of_find?_eq_some h))
    exact Nat.le_of_lt_succ hi

lemma decodeBitmaskImm_isBitmask {n : BitVec 1} {imms immr : BitVec 6} {is64 : Bool} {v : BitVec 64}
    {len : ℕ} (hlen : bitmaskLen n imms = len) (hpos : 1 ≤ len) (hle : len ≤ 6)
    (hs : imms.toNat % 2 ^ len + 1 < 2 ^ len) (h : decodeBitmaskImm n imms immr is64 = some v) :
    IsBitmask is64 (2 ^ len) (imms.toNat % 2 ^ len) (immr.toNat % 2 ^ len) v := by
  have hsize : 2 ^ len ≤ 64 := Nat.pow_le_pow_right (by decide) hle
  have hdiv : 64 / 2 ^ len * 2 ^ len = 64 :=
    Nat.div_mul_cancel (Nat.pow_dvd_pow 2 hle)
  have hr : immr.toNat % 2 ^ len < 2 ^ len := Nat.mod_lt _ (Nat.two_pow_pos len)
  simp only [decodeBitmaskImm, hlen, if_neg (by omega : ¬ len < 1),
    if_neg (by omega : ¬ imms.toNat % 2 ^ len = 2 ^ len - 1)] at h
  obtain rfl := Option.some.inj h
  intro i hi
  have hbit := getLsbD_repeat (k := 64 / 2 ^ len) hsize hs hr hi
  rw [hdiv] at hbit
  cases is64 with
  | true =>
    rw [if_pos rfl, hbit]
    simp [hi]
  | false =>
    have hlow : (0xffffffff#64).getLsbD i = decide (i < 32) := getLsbD_ones (k := 32) (by decide)
    rw [if_neg (by decide), BitVec.getLsbD_and, hbit, hlow]
    simp [hi, and_comm]

/-- Each length of an element and of a run has its encoding. -/
lemma bitmaskLen_encoded : ∀ len < 7, 1 ≤ len → ∀ s < 2 ^ len - 1,
    bitmaskLen (if len = 6 then 1 else 0) (BitVec.ofNat 6 (64 - 2 ^ (len + 1) + s)) = len ∧
      (BitVec.ofNat 6 (64 - 2 ^ (len + 1) + s)).toNat % 2 ^ len = s := by
  decide +kernel

/-- The immediates are the repeated and rotated runs of ones. -/
theorem decodeBitmaskImm_iff (is64 : Bool) (v : BitVec 64) :
    (∃ n imms immr, decodeBitmaskImm n imms immr is64 = some v) ↔
      ∃ len s r, 1 ≤ len ∧ len ≤ 6 ∧ s + 1 < 2 ^ len ∧ r < 2 ^ len ∧
        IsBitmask is64 (2 ^ len) s r v := by
  constructor
  · rintro ⟨n, imms, immr, h⟩
    have hle := bitmaskLen_le n imms
    have hpos : 1 ≤ bitmaskLen n imms := by
      by_contra hlt
      simp [decodeBitmaskImm, show bitmaskLen n imms < 1 by omega] at h
    have hmod := Nat.mod_lt imms.toNat (Nat.two_pow_pos (bitmaskLen n imms))
    have hs : imms.toNat % 2 ^ bitmaskLen n imms + 1 < 2 ^ bitmaskLen n imms := by
      by_contra hge
      have heq : imms.toNat % 2 ^ bitmaskLen n imms = 2 ^ bitmaskLen n imms - 1 := by omega
      simp [decodeBitmaskImm, heq] at h
    exact ⟨_, _, _, hpos, hle, hs, Nat.mod_lt _ (Nat.two_pow_pos _),
      decodeBitmaskImm_isBitmask rfl hpos hle hs h⟩
  · rintro ⟨len, s, r, hpos, hle, hs, hr, hv⟩
    obtain ⟨hlen, hmod⟩ := bitmaskLen_encoded len (by omega) hpos s (by omega)
    have hr' : (BitVec.ofNat 6 r).toNat % 2 ^ len = r := by
      have hsize : 2 ^ len ≤ 2 ^ 6 := Nat.pow_le_pow_right (by decide) hle
      rw [BitVec.toNat_ofNat, Nat.mod_eq_of_lt (by omega : r < 2 ^ 6), Nat.mod_eq_of_lt hr]
    obtain ⟨v', h⟩ : ∃ v', decodeBitmaskImm (if len = 6 then 1 else 0)
        (BitVec.ofNat 6 (64 - 2 ^ (len + 1) + s)) (BitVec.ofNat 6 r) is64 = some v' := by
      simp only [decodeBitmaskImm, hlen, hmod, if_neg (by omega : ¬ len < 1),
        if_neg (by omega : ¬ s = 2 ^ len - 1)]
      exact ⟨_, rfl⟩
    have hv' := decodeBitmaskImm_isBitmask hlen hpos hle (by rwa [hmod]) h
    rw [hmod, hr'] at hv'
    obtain rfl : v = v' :=
      BitVec.eq_of_getLsbD_eq fun i hi => (hv i hi).trans (hv' i hi).symm
    exact ⟨_, _, _, h⟩

end ShellBox
