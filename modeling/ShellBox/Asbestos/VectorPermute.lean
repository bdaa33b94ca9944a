import ShellBox.Asbestos.VectorShift

/-!
# Table lookups and permutations

These helpers gather the bytes of the result in an array of their own and copy it to the
destination afterwards, so that the destination may be a source too. A table of several registers
goes on with V0 after V31.
-/

namespace ShellBox

open Function

/-! ### The array of the result -/

/-- `result[p] = v`, for one store after the other. -/
def storeEach {β : Type*} (result : ℕ → β) (stores : List (ℕ × β)) : ℕ → β :=
  stores.foldl (fun result st => update result st.1 st.2) result

lemma storeEach_apply {β : Type*} {result g : ℕ → β} {stores : List (ℕ × β)} {k : ℕ}
    (h : ∀ st ∈ stores, st.2 = g st.1) (hk : (∃ st ∈ stores, st.1 = k) ∨ result k = g k) :
    storeEach result stores k = g k := by
  induction stores generalizing result with
  | nil =>
    rcases hk with ⟨st, hst, _⟩ | hk
    · cases hst
    · exact hk
  | cons st stores ih =>
    refine ih (fun st' hst' => h st' (List.mem_cons_of_mem st hst')) ?_
    by_cases hat : k = st.1
    · right
      rw [hat]
      exact (update_self st.1 st.2 result).trans (h st List.mem_cons_self)
    · rcases hk with ⟨st', hst', rfl⟩ | hk
      · rcases List.mem_cons.1 hst' with rfl | hmem
        · exact absurd rfl hat
        · exact Or.inl ⟨st', hmem, rfl⟩
      · exact Or.inr ((update_of_ne hat st.2 result).trans hk)

/-- The end of the helpers: the bytes of the result are copied, and those above a short vector are
cleared. -/
def copyOut (rd : ℕ) (Q : Bool) (result : ℕ → BitVec 8) (V : FpRegs) : FpRegs :=
  let num_elements := if Q then 16 else 8
  let V := (List.range num_elements).foldl (fun V i => V.setElem rd i (result i)) V
  if Q then V else update V rd (zeroFrom 8 8 8 (V rd))

lemma copyOut_eq {rd : ℕ} {Q : Bool} {result : ℕ → BitVec 8} {V : FpRegs} :
    copyOut rd Q result V = update V rd (archVector Q 8 result) := by
  rw [copyOut, FpRegs.foldl_setElem]
  cases Q with
  | true =>
    have hfull : 128 = 16 * 8 := rfl
    simp only [if_true]
    rw [overLanes_full hfull]
    rfl
  | false =>
    have hsplit : 128 = (8 + 8) * 8 := rfl
    simp only [Bool.false_eq_true, if_false, update_self, update_idem]
    rw [zeroFrom_overLanes hsplit]
    rfl

/-! ### Table lookups -/

/-- `table_reg[byte_offset]`, for an index that is not too large. -/
def tableByte (rn index : ℕ) (V : FpRegs) : BitVec 8 :=
  let reg_offset := index / 16
  let byte_offset := index % 16
  let table_reg := rn + reg_offset
  -- `fp_base + 32 * 16` is the end of the register file
  let table_reg := if table_reg ≥ 32 then table_reg - 32 else table_reg
  V.elem 8 table_reg byte_offset

def tbl_helper (rd rn rm len : ℕ) (Q : Bool) (V : FpRegs) : FpRegs :=
  let table_size := (len + 1) * 16
  let result := fun i =>
    let index := (V.elem 8 rm i).toNat
    if index < table_size then tableByte rn index V else 0
  copyOut rd Q result V

def tbx_helper (rd rn rm len : ℕ) (Q : Bool) (V : FpRegs) : FpRegs :=
  let table_size := (len + 1) * 16
  let result := fun i =>
    let index := (V.elem 8 rm i).toNat
    if index < table_size then tableByte rn index V else V.elem 8 rd i
  copyOut rd Q result V

/-- `[rd | rn<<8 | rm<<16 | len<<24 | Q<<28]` -/
def tableGadget (helper : ℕ → ℕ → ℕ → ℕ → Bool → FpRegs → FpRegs) (word : BitVec 64) :
    JitCpu → Option JitCpu :=
  callHelper fun V => some (helper (opField word 0 5) (opField word 8 5) (opField word 16 5)
    (opField word 24 3) (opField word 28 1 != 0) V)

/-- The table of the architecture: registers one after the other, V0 after V31. -/
def archTable (n regs : ℕ) (V : FpRegs) : BitVec (regs * 128) :=
  ofLanes (regs * 128) regs fun i => V ((n + i) % 32)

def archLookup (n m regs : ℕ) (old : ℕ → BitVec 8) (V : FpRegs) (i : ℕ) : BitVec 8 :=
  let index := (V.elem 8 m i).toNat
  if index < 16 * regs then lane 8 (archTable n regs V) index else old i

lemma tableByte_eq {rn regs index : ℕ} {V : FpRegs} (hn : rn < 32) (hregs : regs ≤ 32)
    (h : index < 16 * regs) : tableByte rn index V = lane 8 (archTable rn regs V) index := by
  have hreg : index / 16 < regs := by omega
  have hbyte : index % 16 < 16 := Nat.mod_lt index (by decide)
  have hwrap : (if rn + index / 16 ≥ 32 then rn + index / 16 - 32 else rn + index / 16) =
      (rn + index / 16) % 32 := by
    split_ifs <;> omega
  have hlane : lane (16 * 8) (archTable rn regs V) (index / 16) = V ((rn + index / 16) % 32) :=
    (lane_ofLanes (w := 128) le_rfl).trans (if_pos hreg)
  calc tableByte rn index V
      = lane 8 (V ((rn + index / 16) % 32)) (index % 16) := by
        rw [tableByte]
        simp only [hwrap]
        rfl
    _ = lane 8 (lane (16 * 8) (archTable rn regs V) (index / 16)) (index % 16) := by rw [hlane]
    _ = lane 8 (archTable rn regs V) index := by
        rw [lane_lane hbyte, Nat.div_add_mod' index 16]

/-- `TBL` and `TBX`. -/
structure TableInsn where
  extend : Bool
  rd : BitVec 5
  rn : BitVec 5
  rm : BitVec 5
  len : BitVec 2
  Q : Bool

namespace TableInsn

variable (i : TableInsn)

def word : BitVec 64 := pack₅ i.rd i.rn i.rm i.len (BitVec.ofBool i.Q) 28

def run : JitCpu → Option JitCpu :=
  tableGadget (if i.extend then tbx_helper else tbl_helper) i.word

def dest : ℕ := i.rd.toNat

def result (c : JitCpu) : BitVec 128 :=
  archVector i.Q 8 (archLookup i.rn.toNat i.rm.toNat (i.len.toNat + 1)
    (if i.extend then FpRegs.elem c.fp 8 i.rd.toNat else fun _ => 0) c.fp)

variable {i}

lemma run_eq : i.run = callHelper fun V => some ((if i.extend then tbx_helper else tbl_helper)
    i.rd.toNat i.rn.toNat i.rm.toNat i.len.toNat i.Q V) := by
  obtain ⟨e₁, e₂, e₃, e₄, e₅⟩ : opField i.word 0 5 = i.rd.toNat ∧ opField i.word 8 5 = i.rn.toNat ∧
      opField i.word 16 5 = i.rm.toNat ∧ opField i.word 24 3 = i.len.toNat ∧
      opField i.word 28 1 = (BitVec.ofBool i.Q).toNat :=
    opField_pack₅ (by omega) (by omega) (by omega) (by omega) (by omega) (by omega) (by omega)
  rw [run, tableGadget, e₁, e₂, e₃, e₄, e₅]
  cases i.Q <;> rfl

/-- Lookups are exact for all registers. -/
theorem run_eq_result (c : JitCpu) : i.run c = some (c.setFp i.dest (i.result c)) := by
  have hlen := i.len.isLt
  have hbyte (k : ℕ) (old : BitVec 8) :
      (if (FpRegs.elem c.fp 8 i.rm.toNat k).toNat < (i.len.toNat + 1) * 16 then
          tableByte i.rn.toNat (FpRegs.elem c.fp 8 i.rm.toNat k).toNat c.fp else old) =
        archLookup i.rn.toNat i.rm.toNat (i.len.toNat + 1) (fun _ => old) c.fp k := by
    rw [archLookup, mul_comm]
    split_ifs with h
    · exact tableByte_eq i.rn.isLt (by omega) h
    · rfl
  rw [run_eq, callHelper_eq_iff, result]
  refine congrArg some ?_
  cases i.extend with
  | true =>
    simp only [if_true, tbx_helper, copyOut_eq, hbyte]
    rfl
  | false =>
    simp only [Bool.false_eq_true, if_false, tbl_helper, copyOut_eq, hbyte]
    rfl

end TableInsn

/-! ### Permutations -/

/-- The frame that the six helpers share: a pair of elements of the two sources goes to the slots
`slotN` and `slotM` of the result, byte by byte. -/
def permuteHelper (slotN slotM source : ℕ → ℕ → ℕ) (rd rn rm size : ℕ) (Q : Bool) (V : FpRegs) :
    FpRegs :=
  let esize := 1 <<< size
  let elements := (if Q then 16 else 8) / esize
  let stores := (List.range (elements / 2)).flatMap fun i => (List.range esize).flatMap fun b =>
    [(slotN elements i * esize + b, V.elem 8 rn (source elements i * esize + b)),
      (slotM elements i * esize + b, V.elem 8 rm (source elements i * esize + b))]
  copyOut rd Q (storeEach (fun _ => 0) stores) V

def uzp1_helper : ℕ → ℕ → ℕ → ℕ → Bool → FpRegs → FpRegs :=
  permuteHelper (fun _ i => i) (fun elements i => elements / 2 + i) (fun _ i => i * 2)

def uzp2_helper : ℕ → ℕ → ℕ → ℕ → Bool → FpRegs → FpRegs :=
  permuteHelper (fun _ i => i) (fun elements i => elements / 2 + i) (fun _ i => i * 2 + 1)

def trn1_helper : ℕ → ℕ → ℕ → ℕ → Bool → FpRegs → FpRegs :=
  permuteHelper (fun _ i => i * 2) (fun _ i => i * 2 + 1) (fun _ i => i * 2)

def trn2_helper : ℕ → ℕ → ℕ → ℕ → Bool → FpRegs → FpRegs :=
  permuteHelper (fun _ i => i * 2) (fun _ i => i * 2 + 1) (fun _ i => i * 2 + 1)

def zip1_helper : ℕ → ℕ → ℕ → ℕ → Bool → FpRegs → FpRegs :=
  permuteHelper (fun _ i => i * 2) (fun _ i => i * 2 + 1) (fun _ i => i)

def zip2_helper : ℕ → ℕ → ℕ → ℕ → Bool → FpRegs → FpRegs :=
  permuteHelper (fun _ i => i * 2) (fun _ i => i * 2 + 1) (fun elements i => elements / 2 + i)

/-- The three ways to permute the elements of two vectors, each with two parts. -/
inductive PermuteOp where
  | uzp | trn | zip
  deriving DecidableEq

namespace PermuteOp

/-- Element `e` of the result. For the first, the two sources are one long vector. -/
def arch {w : ℕ} (part elements : ℕ) (n m : ℕ → BitVec w) (e : ℕ) : PermuteOp → BitVec w
  | uzp => if 2 * e + part < elements then n (2 * e + part) else m (2 * e + part - elements)
  | trn => if e % 2 = 0 then n (2 * (e / 2) + part) else m (2 * (e / 2) + part)
  | zip => if e % 2 = 0 then n (part * (elements / 2) + e / 2)
      else m (part * (elements / 2) + e / 2)

def helper : PermuteOp → Bool → ℕ → ℕ → ℕ → ℕ → Bool → FpRegs → FpRegs
  | uzp, false => uzp1_helper
  | uzp, true => uzp2_helper
  | trn, false => trn1_helper
  | trn, true => trn2_helper
  | zip, false => zip1_helper
  | zip, true => zip2_helper

def slotN (_ i : ℕ) : PermuteOp → ℕ
  | uzp => i
  | _ => i * 2

def slotM (elements i : ℕ) : PermuteOp → ℕ
  | uzp => elements / 2 + i
  | _ => i * 2 + 1

def source (second : Bool) (elements i : ℕ) : PermuteOp → ℕ
  | zip => second.toNat * (elements / 2) + i
  | _ => i * 2 + second.toNat

lemma helper_eq (op : PermuteOp) (second : Bool) :
    op.helper second = permuteHelper (fun elements i => op.slotN elements i)
      (fun elements i => op.slotM elements i) fun elements i => op.source second elements i := by
  cases op <;> cases second <;>
    simp [helper, uzp1_helper, uzp2_helper, trn1_helper, trn2_helper, zip1_helper, zip2_helper,
      slotN, slotM, source]

variable {w elements i : ℕ} {second : Bool} {n m : ℕ → BitVec w}

lemma arch_slotN (op : PermuteOp) (heven : elements = 2 * (elements / 2)) (hi : i < elements / 2) :
    op.arch second.toNat elements n m (op.slotN elements i) = n (op.source second elements i) := by
  have hpart := Bool.toNat_le second
  cases op with
  | uzp =>
    simp only [slotN, source]
    rw [arch, if_pos (by omega), mul_comm]
  | trn =>
    simp only [slotN, source]
    rw [arch, if_pos (by omega), show 2 * (i * 2 / 2) = i * 2 by omega]
  | zip =>
    simp only [slotN, source]
    rw [arch, if_pos (by omega), Nat.mul_div_cancel i two_pos]

lemma arch_slotM (op : PermuteOp) (heven : elements = 2 * (elements / 2)) :
    op.arch second.toNat elements n m (op.slotM elements i) = m (op.source second elements i) := by
  have hpart := Bool.toNat_le second
  cases op with
  | uzp =>
    simp only [slotM, source]
    rw [arch, if_neg (by omega)]
    exact congrArg m (by omega)
  | trn =>
    simp only [slotM, source]
    rw [arch, if_neg (by omega), show 2 * ((i * 2 + 1) / 2) = i * 2 by omega]
  | zip =>
    simp only [slotM, source]
    rw [arch, if_neg (by omega), show (i * 2 + 1) / 2 = i by omega]

lemma slots_cover (op : PermuteOp) (heven : elements = 2 * (elements / 2)) {e : ℕ}
    (he : e < elements) :
    ∃ i < elements / 2, op.slotN elements i = e ∨ op.slotM elements i = e := by
  cases op with
  | uzp =>
    simp only [slotN, slotM]
    by_cases h : e < elements / 2
    · exact ⟨e, h, Or.inl rfl⟩
    · exact ⟨e - elements / 2, by omega, Or.inr (by omega)⟩
  | trn => exact ⟨e / 2, by omega, by simp only [slotN, slotM]; omega⟩
  | zip => exact ⟨e / 2, by omega, by simp only [slotN, slotM]; omega⟩

end PermuteOp

section

variable {w m rd rn rm size : ℕ} {Q : Bool} {V : FpRegs}

lemma lane_elem (hw : w = m * 8) {r s b : ℕ} (hb : b < m) :
    lane 8 (V.elem w r s) b = V.elem 8 r (s * m + b) := by
  subst hw
  exact lane_lane hb

lemma archVector_bytes (hw : w = m * 8) (hm : 0 < m)
    (hcount : elemCount Q w * w = if Q then 128 else 64) (f : ℕ → BitVec w) :
    archVector Q w f = archVector Q 8 fun k => lane 8 (f (k / m)) (k % m) := by
  have hbytes : elemCount Q 8 = elemCount Q w * m := by
    have hmul : elemCount Q w * m * 8 = if Q then 128 else 64 := by rw [mul_assoc, ← hw, hcount]
    rw [elemCount]
    omega
  have hle : elemCount Q 8 * 8 ≤ 128 := by cases Q <;> decide
  have hle' : elemCount Q w * w ≤ 128 := by
    rw [hcount]
    cases Q <;> decide
  refine eq_of_lanes (k := 16) (w := 8) le_rfl fun k _ => ?_
  subst hw
  rw [archVector, archVector, lane_ofLanes hle, ofLanes, lane_overLanes_narrow hm hle', hbytes,
    lane_zero]
  exact if_congr (Nat.div_lt_iff_lt_mul hm) rfl rfl

lemma permuteHelper_eq {slotN slotM source : ℕ → ℕ → ℕ} (hsize : size < 4)
    {f : ℕ → BitVec (elemBits size)} {elements : ℕ}
    (helements : elements = elemCount Q (elemBits size))
    (hn : ∀ i < elements / 2, f (slotN elements i) = V.elem _ rn (source elements i))
    (hm : ∀ i < elements / 2, f (slotM elements i) = V.elem _ rm (source elements i))
    (hcover : ∀ e < elements, ∃ i < elements / 2, slotN elements i = e ∨ slotM elements i = e) :
    permuteHelper slotN slotM source rd rn rm size Q V =
      update V rd (archVector Q (elemBits size) f) := by
  have hpos : 0 < 2 ^ size := Nat.two_pow_pos size
  have hw : elemBits size = 2 ^ size * 8 := Nat.mul_comm 8 (2 ^ size)
  have hcount : (if Q then 16 else 8) / 2 ^ size = elements := by
    rw [helements]
    interval_cases size <;> cases Q <;> rfl
  have hnum : elemCount Q 8 = elements * 2 ^ size := by
    rw [helements]
    interval_cases size <;> cases Q <;> rfl
  rw [permuteHelper, copyOut_eq, archVector_bytes hw hpos (elemCount_mul hsize)]
  simp only [Nat.one_shiftLeft, hcount]
  refine congrArg (update V rd) (ofLanes_congr fun k hk => ?_)
  refine storeEach_apply (g := fun k => lane 8 (f (k / 2 ^ size)) (k % 2 ^ size)) ?_ (Or.inl ?_)
  · -- every store is the byte of the element whose slot it is in
    intro st hst
    obtain ⟨i, hi, hst⟩ := List.mem_flatMap.1 hst
    obtain ⟨b, hb, hst⟩ := List.mem_flatMap.1 hst
    rw [List.mem_range] at hi hb
    have hdiv (slot : ℕ) : (slot * 2 ^ size + b) / 2 ^ size = slot := by
      rw [Nat.add_comm, Nat.add_mul_div_right b slot hpos, Nat.div_eq_of_lt hb, Nat.zero_add]
    have hmod (slot : ℕ) : (slot * 2 ^ size + b) % 2 ^ size = b := by
      rw [Nat.mul_add_mod_self_right, Nat.mod_eq_of_lt hb]
    rcases List.mem_pair.1 hst with rfl | rfl
    · simp only [hdiv, hmod]
      rw [hn i hi, lane_elem hw hb]
    · simp only [hdiv, hmod]
      rw [hm i hi, lane_elem hw hb]
  · have hlt : k / 2 ^ size < elements := (Nat.div_lt_iff_lt_mul hpos).2 (hnum ▸ hk)
    have hmod : k % 2 ^ size < 2 ^ size := Nat.mod_lt k hpos
    have hsplit := Nat.div_add_mod' k (2 ^ size)
    obtain ⟨i, hi, hslot⟩ := hcover (k / 2 ^ size) hlt
    have hstore (st : ℕ × BitVec 8)
        (hst : st ∈ [(slotN elements i * 2 ^ size + k % 2 ^ size,
            V.elem 8 rn (source elements i * 2 ^ size + k % 2 ^ size)),
          (slotM elements i * 2 ^ size + k % 2 ^ size,
            V.elem 8 rm (source elements i * 2 ^ size + k % 2 ^ size))]) :
        st ∈ (List.range (elements / 2)).flatMap fun i => (List.range (2 ^ size)).flatMap fun b =>
          [(slotN elements i * 2 ^ size + b, V.elem 8 rn (source elements i * 2 ^ size + b)),
            (slotM elements i * 2 ^ size + b, V.elem 8 rm (source elements i * 2 ^ size + b))] :=
      List.mem_flatMap.2 ⟨i, List.mem_range.2 hi,
        List.mem_flatMap.2 ⟨k % 2 ^ size, List.mem_range.2 hmod, hst⟩⟩
    rcases hslot with hslot | hslot
    · exact ⟨_, hstore _ (List.mem_pair.2 (Or.inl rfl)), by rw [hslot, hsplit]⟩
    · exact ⟨_, hstore _ (List.mem_pair.2 (Or.inr rfl)), by rw [hslot, hsplit]⟩

end

structure PermuteInsn where
  op : PermuteOp
  second : Bool
  rd : BitVec 5
  rn : BitVec 5
  rm : BitVec 5
  size : BitVec 2
  Q : Bool
  legal : size = 3 → Q = true

namespace PermuteInsn

variable (i : PermuteInsn)

def run : JitCpu → Option JitCpu :=
  callHelper fun V =>
    some (i.op.helper i.second i.rd.toNat i.rn.toNat i.rm.toNat i.size.toNat i.Q V)

def dest : ℕ := i.rd.toNat

def width : ℕ := elemBits i.size.toNat

def result (c : JitCpu) : BitVec 128 :=
  archVector i.Q i.width fun e =>
    i.op.arch i.second.toNat (elemCount i.Q i.width) (FpRegs.elem c.fp i.width i.rn.toNat)
      (FpRegs.elem c.fp i.width i.rm.toNat) e

variable {i}

lemma elemCount_even : elemCount i.Q i.width = 2 * (elemCount i.Q i.width / 2) := by
  have hpairs : ∀ (size : BitVec 2) (Q : Bool), (size = 3 → Q = true) →
      elemCount Q (elemBits size.toNat) = 2 * (elemCount Q (elemBits size.toNat) / 2) := by
    decide
  exact hpairs i.size i.Q i.legal

/-- Permutations are exact for all registers. -/
theorem run_eq_result (c : JitCpu) : i.run c = some (c.setFp i.dest (i.result c)) := by
  have heven := i.elemCount_even
  rw [run, callHelper_eq_iff, result, PermuteOp.helper_eq]
  refine congrArg some (permuteHelper_eq i.size.isLt rfl ?_ ?_ ?_)
  · exact fun k hk => i.op.arch_slotN heven hk
  · exact fun k _ => i.op.arch_slotM heven
  · exact fun e he => i.op.slots_cover heven he

end PermuteInsn

end ShellBox
