import ShellBox.Asbestos.VectorRegs

/-!
# Shifts of vector elements by an immediate

The six helpers take their operands, the shift and the width of the elements from one operand word.
Each runs over the elements of its width; narrow elements are promoted to `int`. Only the plain
shifts clear the upper half of the register afterwards, when the vector is a short one.
-/

namespace ShellBox

open Function

variable {w s : ℕ}

/-! ### The operators of C -/

/-- `x >> s`, of an unsigned element after the promotions. -/
def shrUnsigned (x : BitVec w) (s : ℕ) : Option (BitVec (max 32 w)) :=
  if s < max 32 w then some (x.setWidth (max 32 w) >>> s) else none

/-- `x >> s`, of a signed element. -/
def shrSigned (x : BitVec w) (s : ℕ) : Option (BitVec (max 32 w)) :=
  if s < max 32 w then some ((x.signExtend (max 32 w)).sshiftRight s) else none

/-- `x << s`, of an unsigned element. The narrow ones are `int` by now, and must fit. -/
def shlUnsigned (x : BitVec w) (s : ℕ) : Option (BitVec (max 32 w)) :=
  if s < max 32 w ∧ (w < 32 → x.toNat * 2 ^ s < 2 ^ 31) then
    some (x.setWidth (max 32 w) <<< s) else none

/-- `a + b`, of signed numbers. -/
def addSigned (a b : BitVec w) : Option (BitVec w) :=
  if a.saddOverflow b then none else some (a + b)

/-- The type of the constant `1`, `1UL` or `1ULL` in the masks. -/
def maskBits (w : ℕ) : ℕ := if w ≤ 16 then 32 else 64

/-- `1 << s` -/
def oneShl (w s : ℕ) : Option (BitVec (maskBits w)) :=
  if s < maskBits w then some (1#(maskBits w) <<< s) else none

/-- `(d & ~mask) | (shifted & mask)` -/
def insertMasked (d shifted mask : BitVec w) : BitVec w := d &&& ~~~mask ||| shifted &&& mask

/-! ### The helpers -/

def elemCount (Q : Bool) (w : ℕ) : ℕ := (if Q then 128 else 64) / w

/-- The frame that the six helpers share: `op` is what the loop computes for each element. -/
def shiftHelper (op : (w : ℕ) → BitVec w → BitVec w → Option (BitVec w)) (clears : Bool)
    (rd rn esize : ℕ) (Q : Bool) (V : FpRegs) : Option FpRegs :=
  match esize with
  | 0 => byWidth 8
  | 1 => byWidth 16
  | 2 => byWidth 32
  | 3 => byWidth 64
  | _ => some V
where
  byWidth (w : ℕ) : Option FpRegs :=
    (perElem w (elemCount Q w) (op w) rd rn V).map fun V =>
      if clears && !Q then update V rd (zeroFrom w (elemCount Q w) (elemCount Q w) (V rd)) else V

/-- `rd[i] = rn[i] >> shift` -/
def ushr_imm_helper (rd rn shift esize : ℕ) (Q : Bool) : FpRegs → Option FpRegs :=
  shiftHelper (fun w _ n => (shrUnsigned n shift).map (·.setWidth w)) true rd rn esize Q

/-- `rd[i] = rn[i] >> shift`, of signed elements. -/
def sshr_imm_helper (rd rn shift esize : ℕ) (Q : Bool) : FpRegs → Option FpRegs :=
  shiftHelper (fun w _ n => (shrSigned n shift).map (·.setWidth w)) true rd rn esize Q

/-- `rd[i] = rd[i] + (rn[i] >> shift)` -/
def usraElem (shift w : ℕ) (d n : BitVec w) : Option (BitVec w) := do
  let shifted ← shrUnsigned n shift
  return (d.setWidth (max 32 w) + shifted).setWidth w

def usra_imm_helper (rd rn shift esize : ℕ) (Q : Bool) : FpRegs → Option FpRegs :=
  shiftHelper (usraElem shift) false rd rn esize Q

/-- `rd[i] = rd[i] + (rn[i] >> shift)`, of signed elements. -/
def ssraElem (shift w : ℕ) (d n : BitVec w) : Option (BitVec w) := do
  let shifted ← shrSigned n shift
  let sum ← addSigned (d.signExtend (max 32 w)) shifted
  return sum.setWidth w

def ssra_imm_helper (rd rn shift esize : ℕ) (Q : Bool) : FpRegs → Option FpRegs :=
  shiftHelper (ssraElem shift) false rd rn esize Q

/-- The forms for one doubleword, `*rd = *rd + (*rn >> shift)`. -/
def usra_scalar_helper (rd rn shift : ℕ) : FpRegs → Option FpRegs :=
  perElem 64 1 (usraElem shift 64) rd rn

def ssra_scalar_helper (rd rn shift : ℕ) : FpRegs → Option FpRegs :=
  perElem 64 1 (ssraElem shift 64) rd rn

/-- `mask = (1 << (esize - shift)) - 1` -/
def sriElem (shift w : ℕ) (d n : BitVec w) : Option (BitVec w) := do
  let bit ← if shift ≤ w then oneShl w (w - shift) else none
  let shifted ← shrUnsigned n shift
  return insertMasked d (shifted.setWidth w) ((bit - 1).setWidth w)

def sri_imm_helper (rd rn shift esize : ℕ) (Q : Bool) : FpRegs → Option FpRegs :=
  shiftHelper (sriElem shift) false rd rn esize Q

/-- `mask = ~((1 << shift) - 1)` -/
def sliElem (shift w : ℕ) (d n : BitVec w) : Option (BitVec w) := do
  let bit ← oneShl w shift
  let shifted ← shlUnsigned n shift
  return insertMasked d (shifted.setWidth w) ((~~~(bit - 1)).setWidth w)

def sli_imm_helper (rd rn shift esize : ℕ) (Q : Bool) : FpRegs → Option FpRegs :=
  shiftHelper (sliElem shift) false rd rn esize Q

/-- `[rd | rn<<8 | shift<<16 | esize<<24 | Q<<28]`, in the gadgets of all six. -/
def shiftGadget (helper : ℕ → ℕ → ℕ → ℕ → Bool → FpRegs → Option FpRegs) (word : BitVec 64) :
    JitCpu → Option JitCpu :=
  callHelper (helper (opField word 0 5) (opField word 8 5) (opField word 16 8)
    (opField word 24 4) (opField word 28 1 != 0))

/-! ### The architecture -/

def elemBits (esize : ℕ) : ℕ := 8 * 2 ^ esize

def archVector (Q : Bool) (w : ℕ) (f : ℕ → BitVec w) : BitVec 128 :=
  ofLanes 128 (elemCount Q w) f

def upperHalf (x : BitVec 128) : BitVec 64 := lane 64 x 1


def archUshr (s w : ℕ) (_ n : BitVec w) : BitVec w := n >>> s

def archSshr (s w : ℕ) (_ n : BitVec w) : BitVec w := n.sshiftRight s

def archUsra (s w : ℕ) (d n : BitVec w) : BitVec w := d + n >>> s

def archSsra (s w : ℕ) (d n : BitVec w) : BitVec w := d + n.sshiftRight s

def archSri (s w : ℕ) (d n : BitVec w) : BitVec w :=
  d &&& ~~~(BitVec.allOnes w >>> s) ||| n >>> s

def archSli (s w : ℕ) (d n : BitVec w) : BitVec w :=
  d &&& ~~~(BitVec.allOnes w <<< s) ||| n <<< s

/-! ### One element -/

variable {d n : BitVec w}

lemma setWidth_shrUnsigned :
    (shrUnsigned n s).map (·.setWidth w) = if s < max 32 w then some (n >>> s) else none := by
  unfold shrUnsigned
  split_ifs
  · refine congrArg some (BitVec.eq_of_getLsbD_eq fun i hi => ?_)
    rw [BitVec.getLsbD_setWidth, BitVec.getLsbD_ushiftRight, BitVec.getLsbD_ushiftRight,
      BitVec.getLsbD_setWidth, decide_eq_true hi, Bool.true_and]
    by_cases hs : s + i < max 32 w
    · rw [decide_eq_true hs, Bool.true_and]
    · rw [BitVec.getLsbD_of_ge n (s + i) (by omega), Bool.and_false]
  · rfl

lemma setWidth_signExtend {m : ℕ} (hm : w ≤ m) : (n.signExtend m).setWidth w = n := by
  apply BitVec.eq_of_getLsbD_eq
  intro i hi
  rw [BitVec.getLsbD_setWidth, BitVec.getLsbD_signExtend, decide_eq_true hi,
    decide_eq_true (hi.trans_le hm), if_pos hi, Bool.true_and, Bool.true_and]

lemma sshiftRight_signExtend {m : ℕ} (hm : w ≤ m) :
    (n.signExtend m).sshiftRight s = (n.sshiftRight s).signExtend m := by
  apply BitVec.eq_of_toInt_eq
  rw [BitVec.toInt_sshiftRight, BitVec.toInt_signExtend_of_le hm,
    BitVec.toInt_signExtend_of_le hm, BitVec.toInt_sshiftRight]

lemma setWidth_shrSigned :
    (shrSigned n s).map (·.setWidth w) =
      if s < max 32 w then some (n.sshiftRight s) else none := by
  unfold shrSigned
  split_ifs
  · rw [Option.map_some, sshiftRight_signExtend (Nat.le_max_right 32 w),
      setWidth_signExtend (Nat.le_max_right 32 w)]
  · rfl

lemma usraElem_eq : usraElem s w d n = if s < max 32 w then some (archUsra s w d n) else none := by
  have hshr := setWidth_shrUnsigned (n := n) (s := s)
  unfold usraElem
  by_cases hs : s < max 32 w
  · rw [if_pos hs] at hshr ⊢
    obtain ⟨x, hx, hset⟩ := Option.map_eq_some_iff.1 hshr
    rw [hx]
    refine congrArg some ?_
    rw [BitVec.setWidth_add _ _ (Nat.le_max_right 32 w), hset, BitVec.setWidth_setWidth_of_le,
      BitVec.setWidth_eq, archUsra]
    exact Nat.le_max_right 32 w
  · rw [if_neg hs, shrUnsigned, if_neg hs]
    rfl

/-- A sum of signed numbers that C leaves undefined: narrow elements are `int` and never are. -/
def SumOverflows (s w : ℕ) (d n : BitVec w) : Prop :=
  32 ≤ w ∧ d.saddOverflow (n.sshiftRight s) = true

instance decidableSumOverflows : Decidable (SumOverflows s w d n) :=
  inferInstanceAs (Decidable (_ ∧ _))

lemma saddOverflow_signExtend {x : BitVec w} :
    (d.signExtend (max 32 w)).saddOverflow (x.signExtend (max 32 w)) = true ↔
      32 ≤ w ∧ d.saddOverflow x = true := by
  have hle := Nat.le_max_right 32 w
  rw [BitVec.saddOverflow, BitVec.saddOverflow, BitVec.toInt_signExtend_of_le hle,
    BitVec.toInt_signExtend_of_le hle]
  by_cases hw : 32 ≤ w
  · rw [max_eq_right hw, and_iff_right hw]
  · have hd := BitVec.two_mul_toInt_lt (x := d)
    have hd' := BitVec.le_two_mul_toInt (x := d)
    have hx := BitVec.two_mul_toInt_lt (x := x)
    have hx' := BitVec.le_two_mul_toInt (x := x)
    have hpow : (2 : ℤ) ^ w ≤ 2 ^ 31 := by
      exact_mod_cast Nat.pow_le_pow_right two_pos (by omega)
    rw [max_eq_left (by omega)]
    simp only [hw, false_and, iff_false, Bool.or_eq_true, decide_eq_true_eq, not_or]
    constructor
    · omega
    · omega

lemma ssraElem_eq : ssraElem s w d n =
    if s < max 32 w ∧ ¬ SumOverflows s w d n then some (archSsra s w d n) else none := by
  have hle := Nat.le_max_right 32 w
  unfold ssraElem shrSigned
  by_cases hs : s < max 32 w
  · rw [if_pos hs, sshiftRight_signExtend hle, Option.bind_eq_bind, Option.bind_some, addSigned]
    by_cases hover : SumOverflows s w d n
    · rw [if_pos (saddOverflow_signExtend.2 hover), if_neg fun h => h.2 hover]
      rfl
    · rw [if_neg (mt saddOverflow_signExtend.1 hover), if_pos ⟨hs, hover⟩]
      refine congrArg some ?_
      rw [BitVec.setWidth_add _ _ hle, setWidth_signExtend hle, setWidth_signExtend hle, archSsra]
  · rw [if_neg hs, if_neg fun h => hs h.1]
    rfl

/-! ### Shift and insert -/

lemma getLsbD_one_shiftLeft_sub_one {m k i : ℕ} (hk : k < m) :
    ((1#m <<< k) - 1).getLsbD i = (decide (i < m) && decide (i < k)) := by
  have hnat : ((1#m <<< k) - 1).toNat = 2 ^ k - 1 := by
    have hlt : 2 ^ k < 2 ^ m := Nat.pow_lt_pow_right (by omega) hk
    have hpos : 0 < 2 ^ k := Nat.two_pow_pos k
    rw [BitVec.toNat_sub, BitVec.toNat_shiftLeft, BitVec.toNat_ofNat, Nat.shiftLeft_eq,
      Nat.mod_eq_of_lt (Nat.one_lt_two_pow (by omega)), one_mul, Nat.mod_eq_of_lt hlt]
    have hone : (1 : BitVec m).toNat = 1 := by
      simp [Nat.mod_eq_of_lt (Nat.one_lt_two_pow (by omega : m ≠ 0))]
    rw [hone, show 2 ^ m - 1 + 2 ^ k = 2 ^ k - 1 + 2 ^ m by omega, Nat.add_mod_right,
      Nat.mod_eq_of_lt (by omega)]
  rw [BitVec.getLsbD, hnat, Nat.testBit_two_pow_sub_one]
  by_cases hi : i < k
  · simp [hi, show i < m by omega]
  · simp [hi]

lemma le_maskBits (hw : w ≤ 64) : w ≤ maskBits w := by
  unfold maskBits
  split_ifs <;> omega

lemma sri_mask (h₁ : 1 ≤ s) (hs : s ≤ w) (hw : w ≤ 64) :
    ((1#(maskBits w) <<< (w - s)) - 1).setWidth w = BitVec.allOnes w >>> s := by
  have hle := le_maskBits hw
  apply BitVec.eq_of_getLsbD_eq
  intro i hi
  rw [BitVec.getLsbD_setWidth, getLsbD_one_shiftLeft_sub_one (by omega), BitVec.getLsbD_ushiftRight,
    BitVec.getLsbD_allOnes, decide_eq_true hi, decide_eq_true (hi.trans_le hle), Bool.true_and,
    Bool.true_and, decide_eq_decide]
  omega

lemma sli_mask (hs : s < w) (hw : w ≤ 64) :
    (~~~((1#(maskBits w) <<< s) - 1)).setWidth w = BitVec.allOnes w <<< s := by
  have hle := le_maskBits hw
  apply BitVec.eq_of_getLsbD_eq
  intro i hi
  rw [BitVec.getLsbD_setWidth, BitVec.getLsbD_not, getLsbD_one_shiftLeft_sub_one (by omega),
    BitVec.getLsbD_shiftLeft, BitVec.getLsbD_allOnes]
  simp [hi, hi.trans_le hle, show i - s < w by omega]

lemma oneShl_eq (hs : s < w) (hw : w ≤ 64) :
    oneShl w s = some (1#(maskBits w) <<< s) := if_pos (hs.trans_le (le_maskBits hw))

lemma sriElem_eq (h₁ : 1 ≤ s) (hs : s ≤ w) (hw : w ≤ 64) :
    sriElem s w d n = if s < max 32 w then some (archSri s w d n) else none := by
  have hshr := setWidth_shrUnsigned (n := n) (s := s)
  unfold sriElem
  rw [if_pos hs, oneShl_eq (by omega) hw, Option.bind_eq_bind, Option.bind_some]
  by_cases hlt : s < max 32 w
  · rw [if_pos hlt] at hshr ⊢
    obtain ⟨x, hx, hset⟩ := Option.map_eq_some_iff.1 hshr
    rw [hx]
    refine congrArg some ?_
    -- nothing of the shifted element is outside the mask
    rw [hset, insertMasked, sri_mask h₁ hs hw, ← BitVec.ushiftRight_and_distrib,
      BitVec.and_allOnes, archSri]
  · rw [if_neg hlt, shrUnsigned, if_neg hlt]
    rfl

lemma shlUnsigned_eq (hs : s < w) (hw : w ≤ 16 ∨ 32 ≤ w) :
    shlUnsigned n s = some (n.setWidth (max 32 w) <<< s) := by
  refine if_pos ⟨by omega, fun h => ?_⟩
  calc n.toNat * 2 ^ s < 2 ^ w * 2 ^ s := Nat.mul_lt_mul_of_pos_right n.isLt (Nat.two_pow_pos s)
    _ = 2 ^ (w + s) := (pow_add 2 w s).symm
    _ ≤ 2 ^ 31 := Nat.pow_le_pow_right two_pos (by omega)

lemma sliElem_eq (hs : s < w) (hw : w ≤ 16 ∨ 32 ≤ w) (hle : w ≤ 64) :
    sliElem s w d n = some (archSli s w d n) := by
  have hset : (n.setWidth (max 32 w) <<< s).setWidth w = n <<< s := by
    apply BitVec.eq_of_getLsbD_eq
    intro i hi
    have hi' : i < max 32 w := hi.trans_le (Nat.le_max_right 32 w)
    rw [BitVec.getLsbD_setWidth, BitVec.getLsbD_shiftLeft, BitVec.getLsbD_shiftLeft,
      BitVec.getLsbD_setWidth, decide_eq_true hi, decide_eq_true hi',
      decide_eq_true (show i - s < max 32 w by omega)]
    simp
  unfold sliElem
  rw [oneShl_eq hs hle, Option.bind_eq_bind, Option.bind_some, shlUnsigned_eq hs hw]
  refine congrArg some ?_
  rw [hset, insertMasked, sli_mask hs hle, ← BitVec.shiftLeft_and_distrib, BitVec.and_allOnes,
    archSli]

/-! ### The whole register -/

lemma shiftHelper_eq_byWidth {op : (w : ℕ) → BitVec w → BitVec w → Option (BitVec w)}
    {clears Q : Bool} {rd rn esize : ℕ} {V : FpRegs} (h : esize < 4) :
    shiftHelper op clears rd rn esize Q V =
      shiftHelper.byWidth op clears rd rn Q V (elemBits esize) := by
  interval_cases esize <;> rfl

lemma elemBits_cases {esize : ℕ} (h : esize < 4) :
    elemBits esize = 8 ∨ elemBits esize = 16 ∨ elemBits esize = 32 ∨ elemBits esize = 64 := by
  interval_cases esize <;> simp [elemBits]

lemma elemCount_mul {Q : Bool} {esize : ℕ} (h : esize < 4) :
    elemCount Q (elemBits esize) * elemBits esize = if Q then 128 else 64 := by
  interval_cases esize <;> cases Q <;> rfl

section

variable {op : (w : ℕ) → BitVec w → BitVec w → Option (BitVec w)} {clears Q : Bool} {rd rn : ℕ}
  {V : FpRegs} {ok : BitVec w → BitVec w → Prop} [∀ d n, Decidable (ok d n)]
  {f : BitVec w → BitVec w → BitVec w}

lemma byWidth_eq_iff (hw : elemCount Q w * w = if Q then 128 else 64)
    (hop : ∀ d n, op w d n = if ok d n then some (f d n) else none) :
    shiftHelper.byWidth op clears rd rn Q V w =
        some (update V rd (archVector Q w fun i => f (V.elem w rd i) (V.elem w rn i))) ↔
      (∀ i < elemCount Q w, ok (V.elem w rd i) (V.elem w rn i)) ∧
        (clears = true ∨ Q = true ∨ upperHalf (V rd) = 0) := by
  have hle : elemCount Q w * w ≤ 128 := by
    rw [hw]
    cases Q <;> decide
  by_cases hok : ∀ i < elemCount Q w, ok (V.elem w rd i) (V.elem w rn i)
  · rw [shiftHelper.byWidth, perElem_eq_some hle fun i hi => by rw [hop, if_pos (hok i hi)],
      Option.map_some, and_iff_right hok, Option.some_inj, update_self]
    cases Q with
    | true =>
      simp only [Bool.not_true, Bool.and_false, Bool.false_eq_true, if_false, true_or, or_true,
        iff_true]
      have hfull : 128 = elemCount true w * w := hw.symm
      rw [overLanes_full hfull, archVector]
    | false =>
      have hsplit : 128 = (elemCount false w + elemCount false w) * w := by
        rw [Nat.add_mul, hw]
        rfl
      cases clears with
      | true =>
        simp only [Bool.not_false, Bool.and_true, if_true, true_or, iff_true]
        rw [update_idem, zeroFrom_overLanes hsplit, archVector]
      | false =>
        simp only [Bool.not_false, Bool.and_true, Bool.false_eq_true, if_false, false_or]
        have hhalf : upperHalf (V rd) = 0 ↔ lane (elemCount false w * w) (V rd) 1 = 0 := by
          rw [hw]
          rfl
        rw [(update_injective V rd).eq_iff, archVector, overLanes_eq_ofLanes_iff hsplit, hhalf,
          lane_one_eq_zero_iff]
  · -- an element without a value
    refine iff_of_false (fun h => hok fun i hi => ?_) fun h => hok h.1
    obtain ⟨V', hV', _⟩ := Option.map_eq_some_iff.1 h
    have hsome := perElem_isSome hle hV' i hi
    rw [hop] at hsome
    by_contra hno
    rw [if_neg hno] at hsome
    cases hsome

end

/-! ### The instructions -/

inductive ShiftOp where
  | ushr | sshr | usra | ssra | sri | sli
  deriving DecidableEq

namespace ShiftOp

def helper : ShiftOp → ℕ → ℕ → ℕ → ℕ → Bool → FpRegs → Option FpRegs
  | ushr => ushr_imm_helper
  | sshr => sshr_imm_helper
  | usra => usra_imm_helper
  | ssra => ssra_imm_helper
  | sri => sri_imm_helper
  | sli => sli_imm_helper

def arch : ShiftOp → (s w : ℕ) → BitVec w → BitVec w → BitVec w
  | ushr => archUshr
  | sshr => archSshr
  | usra => archUsra
  | ssra => archSsra
  | sri => archSri
  | sli => archSli

/-- A shift to the right may be one by the full width, a shift to the left may be none. -/
def Legal (op : ShiftOp) (s w : ℕ) : Prop := if op = sli then s < w else 1 ≤ s ∧ s ≤ w

instance decidableLegal {op : ShiftOp} {s w : ℕ} : Decidable (op.Legal s w) :=
  inferInstanceAs (Decidable (ite _ _ _))

def clears (op : ShiftOp) : Bool := op = ushr || op = sshr

/-- Two elements for which C defines what the helper computes: not the shift by the full width,
unless the element is promoted to `int`, and not the signed sum that overflows. -/
def Defined (op : ShiftOp) (s w : ℕ) (d n : BitVec w) : Prop :=
  (op ≠ sli → s < max 32 w) ∧ (op = ssra → ¬ SumOverflows s w d n)

instance decidableDefined {op : ShiftOp} {s w : ℕ} (d n : BitVec w) :
    Decidable (op.Defined s w d n) :=
  inferInstanceAs (Decidable (_ ∧ _))

def elemOp (s : ℕ) : ShiftOp → (w : ℕ) → BitVec w → BitVec w → Option (BitVec w)
  | ushr => fun w _ n => (shrUnsigned n s).map (·.setWidth w)
  | sshr => fun w _ n => (shrSigned n s).map (·.setWidth w)
  | usra => usraElem s
  | ssra => ssraElem s
  | sri => sriElem s
  | sli => sliElem s

lemma helper_eq (op : ShiftOp) (rd rn s esize : ℕ) (Q : Bool) (V : FpRegs) :
    op.helper rd rn s esize Q V = shiftHelper (op.elemOp s) op.clears rd rn esize Q V := by
  cases op <;> rfl

lemma elemOp_eq {op : ShiftOp} {s w : ℕ} {d n : BitVec w} (hl : op.Legal s w)
    (hw : w = 8 ∨ w = 16 ∨ w = 32 ∨ w = 64) :
    op.elemOp s w d n = if op.Defined s w d n then some (op.arch s w d n) else none := by
  have hle : w ≤ 64 := by omega
  cases op with
  | ushr => simp only [elemOp, setWidth_shrUnsigned, Defined, arch, archUshr]; simp
  | sshr => simp only [elemOp, setWidth_shrSigned, Defined, arch, archSshr]; simp
  | usra => simp only [elemOp, usraElem_eq, Defined, arch]; simp
  | ssra => simp only [elemOp, ssraElem_eq, Defined, arch]; simp
  | sri =>
    have hl' : 1 ≤ s ∧ s ≤ w := hl
    simp only [elemOp, sriElem_eq hl'.1 hl'.2 hle, Defined, arch]
    simp
  | sli =>
    have hl' : s < w := hl
    simp only [elemOp, sliElem_eq hl' (by omega) hle, Defined, arch]
    simp

end ShiftOp

structure ShiftInsn where
  op : ShiftOp
  rd : BitVec 5
  rn : BitVec 5
  shift : BitVec 8
  esize : BitVec 2
  Q : Bool
  legal : op.Legal shift.toNat (elemBits esize.toNat)

namespace ShiftInsn

variable (i : ShiftInsn)

def word : BitVec 64 := pack₅ i.rd i.rn i.shift i.esize (BitVec.ofBool i.Q) 28

def run : JitCpu → Option JitCpu := shiftGadget i.op.helper i.word

def dest : ℕ := i.rd.toNat

def width : ℕ := elemBits i.esize.toNat

def destElem (c : JitCpu) (k : ℕ) : BitVec i.width := FpRegs.elem c.fp i.width i.rd.toNat k

def srcElem (c : JitCpu) (k : ℕ) : BitVec i.width := FpRegs.elem c.fp i.width i.rn.toNat k

def result (c : JitCpu) : BitVec 128 :=
  archVector i.Q i.width fun k =>
    i.op.arch i.shift.toNat i.width (i.destElem c k) (i.srcElem c k)

/-- Every element is defined by C, and what the helper leaves of the upper half is zero. -/
def Fits (c : JitCpu) : Prop :=
  (∀ k < elemCount i.Q i.width,
      i.op.Defined i.shift.toNat i.width (i.destElem c k) (i.srcElem c k)) ∧
    (i.op.clears = true ∨ i.Q = true ∨ upperHalf (c.fp i.dest) = 0)

variable {i}

lemma run_eq : i.run =
    callHelper (i.op.helper i.rd.toNat i.rn.toNat i.shift.toNat i.esize.toNat i.Q) := by
  obtain ⟨e₁, e₂, e₃, e₄, e₅⟩ : opField i.word 0 5 = i.rd.toNat ∧ opField i.word 8 5 = i.rn.toNat ∧
      opField i.word 16 8 = i.shift.toNat ∧ opField i.word 24 4 = i.esize.toNat ∧
      opField i.word 28 1 = (BitVec.ofBool i.Q).toNat :=
    opField_pack₅ (by omega) (by omega) (by omega) (by omega) (by omega) (by omega) (by omega)
  rw [run, shiftGadget, e₁, e₂, e₃, e₄, e₅]
  cases i.Q <;> rfl

theorem run_eq_iff (c : JitCpu) :
    i.run c = some (c.setFp i.dest (i.result c)) ↔ i.Fits c := by
  have hlt := i.esize.isLt
  rw [run_eq, callHelper_eq_iff, ShiftOp.helper_eq, shiftHelper_eq_byWidth hlt]
  change shiftHelper.byWidth _ _ _ _ _ _ i.width = _ ↔ _
  exact byWidth_eq_iff (elemCount_mul hlt) fun d n => ShiftOp.elemOp_eq i.legal (elemBits_cases hlt)

end ShiftInsn

/-! ### The helpers for one doubleword -/

/-- The scalar `USRA` and `SSRA`, for which there are helpers of their own. -/
structure ScalarShift where
  signed : Bool
  rd : BitVec 5
  rn : BitVec 5
  shift : BitVec 8
  legal : 1 ≤ shift.toNat ∧ shift.toNat ≤ 64

namespace ScalarShift

variable (i : ScalarShift)

def run : JitCpu → Option JitCpu :=
  callHelper ((if i.signed then ssra_scalar_helper else usra_scalar_helper)
    i.rd.toNat i.rn.toNat i.shift.toNat)

def toShift : ShiftInsn where
  op := if i.signed then .ssra else .usra
  rd := i.rd
  rn := i.rn
  shift := i.shift
  esize := 3
  Q := false
  legal := by
    have h := i.legal
    cases i.signed <;> exact h

variable {i}

lemma scalar_helper_eq (rd rn s : ℕ) :
    usra_scalar_helper rd rn s = usra_imm_helper rd rn s 3 false ∧
      ssra_scalar_helper rd rn s = ssra_imm_helper rd rn s 3 false :=
  ⟨funext fun _ => Option.map_id'.symm, funext fun _ => Option.map_id'.symm⟩

lemma run_eq : i.run = i.toShift.run := by
  obtain ⟨signed, rd, rn, shift, legal⟩ := i
  obtain ⟨husra, hssra⟩ := scalar_helper_eq rd.toNat rn.toNat shift.toNat
  rw [ShiftInsn.run_eq]
  cases signed with
  | true => exact congrArg callHelper hssra
  | false => exact congrArg callHelper husra

theorem run_eq_iff (c : JitCpu) :
    i.run c = some (c.setFp i.toShift.dest (i.toShift.result c)) ↔ i.toShift.Fits c := by
  rw [run_eq]
  exact ShiftInsn.run_eq_iff c

end ScalarShift

end ShellBox
