import ShellBox.Asbestos.VectorRegs
import ShellBox.Logic.Carryless

/-!
# Products without carries

The helper for bytes stores each product of sixteen bits before it reads the next two bytes. Where
the destination is also a source, the products of the lower halves go over bytes that are still to
be read. The products of the upper halves never come that far, and the one of two doublewords is
stored last.
-/

namespace ShellBox

open Function

/-! ### The helper -/

/-- The product of two bytes, in `uint16_t`. -/
def pmull8 (a b : BitVec 16) : BitVec 16 :=
  (List.range 8).foldl (fun result j => if b &&& 1 <<< j ≠ 0 then result ^^^ a <<< j else result) 0

def pmull64_full (a b : BitVec 64) : BitVec 128 :=
  (List.range 64).foldl
    (fun result i => if b &&& 1 <<< i ≠ 0 then result ^^^ a.setWidth 128 <<< i else result) 0

/-- `src_n` and `src_m` are the lower or the upper half. -/
def pmull_helper (rd rn rm : ℕ) (Q : Bool) (size : ℕ) (V : FpRegs) : FpRegs :=
  if size = 0 then
    let off := if Q then 8 else 0
    (List.range 8).foldl (fun V i => V.setElem rd i
      (pmull8 ((V.elem 8 rn (off + i)).setWidth 16) ((V.elem 8 rm (off + i)).setWidth 16))) V
  else if size = 3 then
    let half := if Q then 1 else 0
    update V rd (pmull64_full (V.elem 64 rn half) (V.elem 64 rm half))
  else V

/-- `[rd | rn<<8 | rm<<16 | Q<<24 | size<<26]` -/
def gadget_pmull (word : BitVec 64) : JitCpu → Option JitCpu :=
  callHelper fun V => some (pmull_helper (opField word 0 5) (opField word 8 5) (opField word 16 5)
    (opField word 24 1 != 0) (opField word 26 2) V)

/-! ### The architecture -/

/-- The architecture adds up the second operand, shifted by the bits of the first. -/
def polynomialMult {m n : ℕ} (p : ℕ) (op1 : BitVec m) (op2 : BitVec n) : BitVec p :=
  clmul p op2 op1

def archPmull (w half : ℕ) (n m : BitVec 128) : BitVec 128 :=
  ofLanes 128 (64 / w) fun e =>
    polynomialMult (2 * w) (lane w n (half * (64 / w) + e)) (lane w m (half * (64 / w) + e))

/-! ### The products -/

lemma pmull8_eq (a b : BitVec 8) : pmull8 (a.setWidth 16) (b.setWidth 16) = clmul 16 a b := by
  have hsteps (k : ℕ) (hk : k ≤ 8) :
      (List.range k).foldl (fun result j => if b.setWidth 16 &&& 1#16 <<< j ≠ 0 then
        result ^^^ a.setWidth 16 <<< j else result) 0 = clmulSteps 16 a b k := by
    induction k with
    | zero => rfl
    | succ k ih =>
      have hbit : (b.setWidth 16).getLsbD k = b.getLsbD k := by
        rw [BitVec.getLsbD_setWidth, decide_eq_true (show k < 16 by omega), Bool.true_and]
      rw [List.range_succ, List.foldl_append, ih (by omega), clmulSteps_succ]
      simp only [List.foldl_cons, List.foldl_nil,
        and_one_shiftLeft_ne_zero (show k < 16 by omega), hbit]
  exact hsteps 8 le_rfl

lemma pmull64_full_eq (a b : BitVec 64) : pmull64_full a b = clmul 128 a b := by
  have hsteps (k : ℕ) (hk : k ≤ 64) :
      (List.range k).foldl (fun result i => if b &&& 1#64 <<< i ≠ 0 then
        result ^^^ a.setWidth 128 <<< i else result) 0 = clmulSteps 128 a b k := by
    induction k with
    | zero => rfl
    | succ k ih =>
      rw [List.range_succ, List.foldl_append, ih (by omega), clmulSteps_succ]
      simp only [List.foldl_cons, List.foldl_nil,
        and_one_shiftLeft_ne_zero (show k < 64 by omega)]
  exact hsteps 64 le_rfl

/-! ### Bytes -/

section

variable {rd rn rm : ℕ} {V : FpRegs}

/-- The byte that the products before have put in the place of byte `k` of the destination. -/
def overwritten (rn rm k : ℕ) (V : FpRegs) : BitVec 8 :=
  lane 8 (clmul 16 (V.elem 8 rn (k / 2)) (V.elem 8 rm (k / 2))) (k % 2)

def Harmless (rd rn rm k : ℕ) (V : FpRegs) : Prop :=
  (rn = rd → overwritten rn rm k V = V.elem 8 rn k ∨ rm ≠ rd ∧ V.elem 8 rm k = 0) ∧
    (rm = rd → overwritten rn rm k V = V.elem 8 rm k ∨ rn ≠ rd ∧ V.elem 8 rn k = 0)

instance decidableHarmless {k : ℕ} : Decidable (Harmless rd rn rm k V) :=
  inferInstanceAs (Decidable (_ ∧ _))

lemma elem_byte_overLanes {off k r : ℕ} {g : ℕ → BitVec 16} (hk : k < 8)
    (hoff : off = 0 ∨ off = 8) :
    FpRegs.elem (update V rd (overLanes (V rd) k g)) 8 r (off + k) =
      if r = rd ∧ off = 0 ∧ 1 ≤ k then lane 8 (g (k / 2)) (k % 2) else V.elem 8 r (off + k) := by
  have hle : k * (2 * 8) ≤ 128 := by omega
  have hread : lane 8 (overLanes (V rd) k g) (off + k) =
      if (off + k) / 2 < k then lane 8 (g ((off + k) / 2)) ((off + k) % 2)
        else lane 8 (V rd) (off + k) :=
    lane_overLanes_narrow (m := 2) (w := 8) two_pos hle
  rw [FpRegs.elem]
  by_cases hr : r = rd
  · subst hr
    rw [update_self, hread]
    rcases hoff with rfl | rfl
    · rw [Nat.zero_add]
      by_cases h1 : 1 ≤ k
      · rw [if_pos (by omega), if_pos ⟨rfl, rfl, h1⟩]
      · rw [if_neg (by omega), if_neg fun h => h1 h.2.2]
        rfl
    · rw [if_neg (by omega), if_neg fun h => by omega]
      rfl
  · rw [update_of_ne hr, if_neg fun h => hr h.1]
    rfl

lemma clmul_overwritten_iff {k : ℕ} :
    clmul 16 (if rn = rd then overwritten rn rm k V else V.elem 8 rn k)
        (if rm = rd then overwritten rn rm k V else V.elem 8 rm k) =
        clmul 16 (V.elem 8 rn k) (V.elem 8 rm k) ↔
      Harmless rd rn rm k V := by
  unfold Harmless
  by_cases hn : rn = rd
  · by_cases hm : rm = rd
    · -- a square
      subst hn hm
      simp only [if_true, forall_const, ne_eq, not_true_eq_false, false_and, or_false, and_self]
      exact clmul_self_inj le_rfl
    · simp only [hn, hm, if_true, if_false, forall_const, ne_eq, not_false_eq_true, true_and,
        IsEmpty.forall_iff, and_true]
      exact (clmul_left_inj le_rfl).trans or_comm
  · by_cases hm : rm = rd
    · simp only [hn, hm, if_true, if_false, forall_const, ne_eq, not_false_eq_true, true_and,
        IsEmpty.forall_iff]
      rw [clmul_comm le_rfl, clmul_comm (a := V.elem 8 rn k) le_rfl]
      exact (clmul_left_inj le_rfl).trans or_comm
    · simp [hn, hm]

lemma archPmull_bytes {Q : Bool} :
    archPmull 8 Q.toNat (V rn) (V rm) = ofLanes 128 8 fun e =>
      clmul 16 (V.elem 8 rn ((if Q then 8 else 0) + e))
        (V.elem 8 rm ((if Q then 8 else 0) + e)) := by
  have hoff : Q.toNat * 8 = if Q then 8 else 0 := by cases Q <;> rfl
  rw [← hoff]
  exact ofLanes_congr fun e _ => clmul_comm le_rfl

lemma pmull_bytes_eq_iff {Q : Bool} :
    pmull_helper rd rn rm Q 0 V = update V rd (archPmull 8 Q.toNat (V rn) (V rm)) ↔
      Q = true ∨ ∀ k, 1 ≤ k → k < 8 → Harmless rd rn rm k V := by
  have hfull : 128 = 8 * 16 := rfl
  rw [archPmull_bytes, ← overLanes_full (v := V rd) hfull, pmull_helper, if_pos rfl]
  refine (FpRegs.foldl_setElem_eq_iff _ le_rfl).trans ?_
  simp only [pmull8_eq]
  cases Q with
  | true =>
    refine iff_of_true (fun k hk => ?_) (Or.inl rfl)
    simp only [if_true]
    rw [elem_byte_overLanes hk (Or.inr rfl), elem_byte_overLanes hk (Or.inr rfl),
      if_neg fun h => by omega, if_neg fun h => by omega]
  | false =>
    simp only [Bool.false_eq_true, if_false, false_or]
    refine forall_congr' fun k => ⟨fun h h1 hk => ?_, fun h hk => ?_⟩
    · have hstep := h hk
      rw [elem_byte_overLanes hk (Or.inl rfl), elem_byte_overLanes hk (Or.inl rfl)] at hstep
      simp only [Nat.zero_add, h1, and_true] at hstep
      exact clmul_overwritten_iff.1 hstep
    · rw [elem_byte_overLanes hk (Or.inl rfl), elem_byte_overLanes hk (Or.inl rfl)]
      simp only [Nat.zero_add, true_and]
      by_cases h1 : 1 ≤ k
      · simp only [h1, and_true]
        exact clmul_overwritten_iff.2 (h h1 hk)
      · rw [if_neg fun h => h1 h.2, if_neg fun h => h1 h.2]

lemma pmull_doubleword_eq {Q : Bool} :
    pmull_helper rd rn rm Q 3 V = update V rd (archPmull 64 Q.toNat (V rn) (V rm)) := by
  have hhalf : (if Q then 1 else 0) = Q.toNat * 1 + 0 := by cases Q <;> rfl
  have harch : archPmull 64 Q.toNat (V rn) (V rm) =
      clmul 128 (V.elem 64 rm (Q.toNat * 1 + 0)) (V.elem 64 rn (Q.toNat * 1 + 0)) := ofLanes_one
  rw [pmull_helper, if_neg (by decide), if_pos rfl, harch, clmul_comm le_rfl, ← pmull64_full_eq,
    hhalf]

end

/-- `PMULL` and `PMULL2`, of bytes or of doublewords. -/
structure PmullInsn where
  rd : BitVec 5
  rn : BitVec 5
  rm : BitVec 5
  Q : Bool
  wide : Bool

namespace PmullInsn

variable (i : PmullInsn)

def size : BitVec 2 := if i.wide then 3 else 0

def word : BitVec 64 := pack₅ i.rd i.rn i.rm (BitVec.ofBool i.Q) i.size 26

def run : JitCpu → Option JitCpu := gadget_pmull i.word

def dest : ℕ := i.rd.toNat

def result (c : JitCpu) : BitVec 128 :=
  archPmull (if i.wide then 64 else 8) i.Q.toNat (c.fp i.rn.toNat) (c.fp i.rm.toNat)

/-- Of the lower halves of bytes, no operand is overwritten before it is read, or it does not
matter. -/
def Fits (c : JitCpu) : Prop :=
  i.wide = true ∨ i.Q = true ∨
    ∀ k, 1 ≤ k → k < 8 → Harmless i.rd.toNat i.rn.toNat i.rm.toNat k c.fp

variable {i}

lemma run_eq : i.run = callHelper fun V =>
    some (pmull_helper i.rd.toNat i.rn.toNat i.rm.toNat i.Q i.size.toNat V) := by
  obtain ⟨e₁, e₂, e₃, e₄, e₅⟩ : opField i.word 0 5 = i.rd.toNat ∧ opField i.word 8 5 = i.rn.toNat ∧
      opField i.word 16 5 = i.rm.toNat ∧ opField i.word 24 1 = (BitVec.ofBool i.Q).toNat ∧
      opField i.word 26 2 = i.size.toNat :=
    opField_pack₅ (by omega) (by omega) (by omega) (by omega) (by omega) (by omega) (by omega)
  rw [run, gadget_pmull, e₁, e₂, e₃, e₄, e₅]
  cases i.Q <;> rfl

theorem run_eq_iff (c : JitCpu) :
    i.run c = some (c.setFp i.dest (i.result c)) ↔ i.Fits c := by
  rw [run_eq, callHelper_eq_iff, Option.some_inj, Fits, result, size]
  cases i.wide with
  | true =>
    refine iff_of_true ?_ (Or.inl rfl)
    exact pmull_doubleword_eq
  | false =>
    simp only [Bool.false_eq_true, if_false, false_or]
    exact pmull_bytes_eq_iff

end PmullInsn

end ShellBox
