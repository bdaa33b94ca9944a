import ShellBox.Asbestos.LoadPair
import ShellBox.Logic.Lanes
import ShellBox.Logic.Packed

/-!
# The vector registers under the C helpers

The vector registers lie one after the other in `cpu->fp`. A helper is called with pointers into
this array and reads and writes elements of one width through them, one element after the other.
Two of the pointers may be the same. What C leaves undefined is `none`.
-/

namespace ShellBox

open Function

/-- `cpu->fp`, from V0 on. -/
abbrev FpRegs := ℕ → BitVec 128

namespace FpRegs

variable {w : ℕ}

/-- `p[i]`, where `p` points to a register as elements of this width. -/
def elem (V : FpRegs) (w r i : ℕ) : BitVec w := lane w (V r) i

/-- `p[i] = x` -/
def setElem (V : FpRegs) (r i : ℕ) (x : BitVec w) : FpRegs := update V r (setLane (V r) i x)

variable {V : FpRegs} {r r' i j : ℕ} {x : BitVec w}

lemma setElem_update_overLanes {k : ℕ} {g : ℕ → BitVec w} (hx : x = g k) :
    setElem (update V r (overLanes (V r) k g)) r k x =
      update V r (overLanes (V r) (k + 1) g) := by
  rw [setElem, update_self, update_idem, overLanes_succ, hx]

lemma elem_update_overLanes {k : ℕ} {g : ℕ → BitVec w} (hk : k * w ≤ 128) (hi : k ≤ i) :
    elem (update V r (overLanes (V r) k g)) w r' i = V.elem w r' i := by
  rw [elem, elem]
  by_cases h : r' = r
  · subst h
    rw [update_self, lane_overLanes hk, if_neg (by omega)]
  · rw [update_of_ne h]

lemma foldl_setElem {k : ℕ} (f : ℕ → FpRegs → BitVec w) :
    (List.range k).foldl (fun V i => V.setElem r i (f i V)) V =
      update V r (overLanes (V r) k fun i =>
        f i ((List.range i).foldl (fun V i => V.setElem r i (f i V)) V)) := by
  induction k with
  | zero => exact (update_eq_self r V).symm
  | succ k ih =>
    rw [List.range_succ, List.foldl_append]
    simp only [List.foldl_cons, List.foldl_nil]
    conv_lhs => rw [ih]
    exact setElem_update_overLanes (by rw [ih])

lemma foldl_setElem_eq_iff {k : ℕ} (f : ℕ → FpRegs → BitVec w) {g : ℕ → BitVec w}
    (hk : k * w ≤ 128) :
    (List.range k).foldl (fun V i => V.setElem r i (f i V)) V =
        update V r (overLanes (V r) k g) ↔
      ∀ i < k, f i (update V r (overLanes (V r) i g)) = g i := by
  obtain ⟨st, hst⟩ : ∃ st : ℕ → FpRegs, ∀ k,
      (List.range k).foldl (fun V i => V.setElem r i (f i V)) V = st k := ⟨_, fun _ => rfl⟩
  have hstate (k : ℕ) : st k = update V r (overLanes (V r) k fun i => f i (st i)) := by
    rw [← hst k, foldl_setElem]
    simp only [hst]
  rw [hst k, hstate k, (update_injective V r).eq_iff, overLanes_eq_overLanes_iff hk]
  constructor
  · intro h i hi
    rw [← h i hi, ← overLanes_congr fun j hj => h j (hj.trans hi), ← hstate i]
  · intro h i hi
    -- by induction the elements before are the right ones
    induction i using Nat.strong_induction_on with
    | _ i ih =>
      rw [hstate i, overLanes_congr fun j hj => ih j hj (hj.trans hi)]
      exact h i hi

end FpRegs

/-! ### Loops over the elements -/

section

variable {σ : Type*}

/-- `for (i = 0; i < count; i++) body` -/
def forElems (count : ℕ) (body : ℕ → σ → Option σ) (s : σ) : Option σ :=
  (List.range count).foldlM (fun s i => body i s) s

variable {body : ℕ → σ → Option σ} {count : ℕ}

@[simp] lemma forElems_zero (s : σ) : forElems 0 body s = some s := rfl

lemma forElems_succ (s : σ) :
    forElems (count + 1) body s = (forElems count body s).bind (body count) := by
  rw [forElems, List.range_succ, List.foldlM_append]
  cases h : (List.range count).foldlM (fun s i => body i s) s <;> simp [forElems, h]

lemma forElems_eq_some {P : ℕ → σ} (h : ∀ i < count, body i (P i) = some (P (i + 1))) :
    forElems count body (P 0) = some (P count) := by
  induction count with
  | zero => rfl
  | succ k ih =>
    rw [forElems_succ, ih fun i hi => h i (by omega)]
    exact h k (by omega)

end

/-! ### Element by element -/

section

variable {w count rd rn : ℕ} {op : BitVec w → BitVec w → Option (BitVec w)} {V V' : FpRegs}

/-- `for (…) dst[i] = op(dst[i], src[i])` -/
def perElem (w count : ℕ) (op : BitVec w → BitVec w → Option (BitVec w)) (rd rn : ℕ) (V : FpRegs) :
    Option FpRegs :=
  forElems count (fun i V => (op (V.elem w rd i) (V.elem w rn i)).map (V.setElem rd i)) V

lemma perElem_eq_some (hw : count * w ≤ 128) {g : ℕ → BitVec w}
    (h : ∀ i < count, op (V.elem w rd i) (V.elem w rn i) = some (g i)) :
    perElem w count op rd rn V = some (update V rd (overLanes (V rd) count g)) := by
  have hstart : V = update V rd (overLanes (V rd) 0 g) := by
    rw [overLanes_zero, update_eq_self]
  rw [perElem]
  conv_lhs => rw [hstart]
  refine forElems_eq_some (P := fun i => update V rd (overLanes (V rd) i g)) fun i hi => ?_
  have hle : i * w ≤ 128 := (Nat.mul_le_mul_right w hi.le).trans hw
  simp only [FpRegs.elem_update_overLanes hle le_rfl, h i hi, Option.map_some]
  rw [FpRegs.setElem_update_overLanes rfl]

lemma perElem_isSome (hw : count * w ≤ 128) (h : perElem w count op rd rn V = some V') :
    ∀ i < count, (op (V.elem w rd i) (V.elem w rn i)).isSome := by
  induction count generalizing V' with
  | zero => exact fun i hi => absurd hi (Nat.not_lt_zero i)
  | succ k ih =>
    have hle : k * w ≤ 128 := (Nat.mul_le_mul_right w (Nat.le_succ k)).trans hw
    rw [perElem, forElems_succ] at h
    obtain ⟨t, ht, hbody⟩ := Option.bind_eq_some_iff.1 h
    have hall := ih hle ht
    -- the elements before are defined, so the state here is known
    have hsome : ∀ i < k, op (V.elem w rd i) (V.elem w rn i) =
        some ((op (V.elem w rd i) (V.elem w rn i)).getD 0) := fun i hi => by
      rw [← Option.some_get (hall i hi)]
      rfl
    have hstate := perElem_eq_some hle hsome
    rw [perElem, ht] at hstate
    rw [Option.some.inj hstate, FpRegs.elem_update_overLanes hle le_rfl,
      FpRegs.elem_update_overLanes hle le_rfl] at hbody
    intro i hi
    rcases Nat.lt_succ_iff_lt_or_eq.1 hi with hlt | rfl
    · exact hall i hlt
    · obtain ⟨x, hx, _⟩ := Option.map_eq_some_iff.1 hbody
      rw [hx]
      rfl

end

/-! ### The operand words -/

def opField (word : BitVec 64) (lo len : ℕ) : ℕ := (word.extractLsb' lo len).toNat

/-- A helper that is given pointers into `cpu->fp`. -/
def callHelper (helper : FpRegs → Option FpRegs) (c : JitCpu) : Option JitCpu :=
  (helper c.fp).map fun fp => { c with fp := fp }

lemma callHelper_eq_iff {helper : FpRegs → Option FpRegs} {c : JitCpu} {r : ℕ} {x : BitVec 128} :
    callHelper helper c = some (c.setFp r x) ↔ helper c.fp = some (update c.fp r x) := by
  rw [callHelper, JitCpu.setFp]
  constructor
  · intro h
    obtain ⟨fp, hfp, heq⟩ := Option.map_eq_some_iff.1 h
    rw [hfp, show fp = update c.fp r x from congrArg JitCpu.fp heq]
  · intro h
    rw [h, Option.map_some]

section

variable {w₁ w₂ w₃ w₄ w₅ : ℕ} (x₁ : BitVec w₁) (x₂ : BitVec w₂) (x₃ : BitVec w₃) (x₄ : BitVec w₄)
  (x₅ : BitVec w₅)

/-- `a | b<<8 | c<<16` -/
def pack₃ : BitVec 64 := packAt 0 x₁ ||| packAt 8 x₂ ||| packAt 16 x₃

/-- `a | b<<8 | c<<16 | d<<24 | e<<k` -/
def pack₅ (k : ℕ) : BitVec 64 := pack₃ x₁ x₂ x₃ ||| packAt 24 x₄ ||| packAt k x₅

variable {x₁ x₂ x₃ x₄ x₅}

lemma opField_pack₃ (h₁ : w₁ ≤ 8) (h₂ : w₂ ≤ 8) (h₃ : w₃ ≤ 48) :
    opField (pack₃ x₁ x₂ x₃) 0 w₁ = x₁.toNat ∧ opField (pack₃ x₁ x₂ x₃) 8 w₂ = x₂.toNat ∧
      opField (pack₃ x₁ x₂ x₃) 16 w₃ = x₃.toNat := by
  obtain ⟨e₁, e₂, e₃⟩ := extract_pack₃ x₁ x₂ x₃ h₁ h₂ h₃
  exact ⟨congrArg _ e₁, congrArg _ e₂, congrArg _ e₃⟩

lemma opField_pack₅ {k f₄ f₅ : ℕ} (h₁ : w₁ ≤ 8) (h₂ : w₂ ≤ 8) (h₃ : w₃ ≤ 8) (h₄ : w₄ ≤ f₄)
    (hk : 24 + f₄ ≤ k) (h₅ : w₅ ≤ f₅) (hlast : k + f₅ ≤ 64) :
    opField (pack₅ x₁ x₂ x₃ x₄ x₅ k) 0 w₁ = x₁.toNat ∧
      opField (pack₅ x₁ x₂ x₃ x₄ x₅ k) 8 w₂ = x₂.toNat ∧
      opField (pack₅ x₁ x₂ x₃ x₄ x₅ k) 16 w₃ = x₃.toNat ∧
      opField (pack₅ x₁ x₂ x₃ x₄ x₅ k) 24 f₄ = x₄.toNat ∧
      opField (pack₅ x₁ x₂ x₃ x₄ x₅ k) k f₅ = x₅.toNat := by
  obtain ⟨e₁, e₂, e₃⟩ := extract_pack₃ x₁ x₂ x₃ h₁ h₂ (by omega)
  have hor {lo len : ℕ} (a b c : BitVec 64) : (a ||| b ||| c).extractLsb' lo len =
      a.extractLsb' lo len ||| b.extractLsb' lo len ||| c.extractLsb' lo len := by
    rw [BitVec.extractLsb'_or, BitVec.extractLsb'_or]
  -- the three low fields are below the other two, which are zero there
  have hlow {lo len : ℕ} (h : lo + len ≤ 24) : (pack₅ x₁ x₂ x₃ x₄ x₅ k).extractLsb' lo len =
      (pack₃ x₁ x₂ x₃).extractLsb' lo len := by
    rw [pack₅, hor, extract_packAt_below x₄ h, extract_packAt_below x₅ (by omega)]
    simp
  have hhigh {lo len : ℕ} (h : 24 ≤ lo) : (pack₃ x₁ x₂ x₃).extractLsb' lo len = 0 := by
    rw [pack₃, hor, extract_packAt_above x₁ (by omega), extract_packAt_above x₂ (by omega),
      extract_packAt_above x₃ (by omega)]
    simp
  refine ⟨?_, ?_, ?_, ?_, ?_⟩
  · rw [opField, hlow (by omega)]
    exact congrArg _ e₁
  · rw [opField, hlow (by omega)]
    exact congrArg _ e₂
  · rw [opField, hlow (by omega)]
    exact congrArg _ e₃
  · rw [opField, pack₅, hor, hhigh le_rfl, extract_packAt x₄ (by omega),
      extract_packAt_below x₅ hk]
    simp [Nat.mod_eq_of_lt (x₄.isLt.trans_le (Nat.pow_le_pow_right two_pos h₄))]
  · rw [opField, pack₅, hor, hhigh (by omega), extract_packAt_above x₄ (by omega),
      extract_packAt x₅ hlast]
    simp [Nat.mod_eq_of_lt (x₅.isLt.trans_le (Nat.pow_le_pow_right two_pos h₅))]

end

end ShellBox
