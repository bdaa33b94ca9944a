import ShellBox.Asbestos.BitmaskImm
import ShellBox.Asbestos.Gadgets

/-!
# Compare and branch in one gadget

The translator looks ahead: a comparison with a conditional branch right behind it becomes one
gadget, which ends the block, and so do an `AND`, the comparison of its result and the branch.
Without a look ahead each instruction has a gadget of its own, and the flags go through memory from
one to the other. A block does the same either way.
-/

namespace ShellBox

open Function

/-! ### The flags of the host -/

structure Nzcv where
  n : Bool
  z : Bool
  c : Bool
  v : Bool

namespace Nzcv

/-- `mrs x, nzcv` -/
def word (f : Nzcv) : BitVec 32 :=
  BitVec.ofBool f.n ++ BitVec.ofBool f.z ++ BitVec.ofBool f.c ++ BitVec.ofBool f.v ++ 0#28

/-- `msr nzcv, x` -/
def ofWord (x : BitVec 32) : Nzcv :=
  ⟨x.getLsbD 31, x.getLsbD 30, x.getLsbD 29, x.getLsbD 28⟩

@[simp] lemma ofWord_word (f : Nzcv) : ofWord f.word = f := by
  obtain ⟨n, z, c, v⟩ := f
  cases n <;> cases z <;> cases c <;> cases v <;> rfl

/-- Whether `b.cond` branches. -/
def holds (f : Nzcv) : ℕ → Bool
  | 0  => f.z
  | 1  => !f.z
  | 2  => f.c
  | 3  => !f.c
  | 4  => f.n
  | 5  => !f.n
  | 6  => f.v
  | 7  => !f.v
  | 8  => f.c && !f.z
  | 9  => !f.c || f.z
  | 10 => f.n == f.v
  | 11 => f.n != f.v
  | 12 => !f.z && f.n == f.v
  | 13 => f.z || f.n != f.v
  | _  => true

end Nzcv

/-- The flags of `subs`. -/
def subsFlags {w : ℕ} (x y : BitVec w) : Nzcv where
  n := (x - y).msb
  z := x - y == 0
  c := y.ule x
  v := x.ssubOverflow y

/-! ### The gadgets -/

/-- The end of a block, with the entry of `jump_ip` that it takes. -/
abbrev LastGadget := JitState → JitState × Option ℕ

def onCpu (f : JitCpu → JitCpu) : Gadget := fun _ s => some { s with cpu := f s.cpu }

/-- `bcond_taken` and `bcond_not_taken`, where the blocks are not chained. -/
def leaveTo (target fallthrough : BitVec 64) (taken : Bool) (c : JitCpu) (s : JitState) :
    JitState × Option ℕ :=
  ({ s with cpu := { c with pc := guestAddr (if taken then target else fallthrough) } },
    some (if taken then 0 else 1))

section

variable {w : ℕ} (word : BitVec 64)

def field (lo : ℕ) : ℕ := (word.extractLsb' lo 5).toNat

/-- `subs`, its flags to `cpu->nzcv` and its result to a register that is not the zero register. -/
def subsTo (rd : ℕ) (x y : BitVec w) (c : JitCpu) : JitCpu :=
  { c with nzcv := (subsFlags x y).word }.setReg rd ((x - y).setWidth 64)

/-- `subs_imm_64`, and `subs_imm_32` on the low halves: `[rd | rn<<8 | imm12<<16]`. -/
def gadgetSubsImm (w : ℕ) : Gadget := onCpu fun c =>
  subsTo (field word 0) ((c.regs (field word 8)).setWidth w)
    ((word.extractLsb' 16 12).setWidth w) c

/-- `subs_reg_64_nshift`: `[rd | rn<<8 | rm<<16]` -/
def gadgetSubsReg64Nshift : Gadget := onCpu fun c =>
  subsTo (field word 0) (c.regs (field word 8)) (c.regs (field word 16)) c

/-- `and_imm_32_simple`: `[rd | rn<<8][imm]` -/
def gadgetAndImm32Simple (imm : BitVec 64) : Gadget := onCpu fun c =>
  let x := (c.regs (field word 8)).setWidth 32 &&& imm.setWidth 32
  { c with regs := update c.regs (field word 0) (x.setWidth 64) }

variable (cond : ℕ) (target fallthrough : BitVec 64)

/-- `branch` -/
def gadgetBranch : LastGadget := fun s =>
  ({ s with cpu := { s.cpu with pc := guestAddr target } }, some 0)

/-- `bcond_eq` and so on. -/
def gadgetBcond : LastGadget := fun s =>
  leaveTo target fallthrough ((Nzcv.ofWord s.cpu.nzcv).holds cond) s.cpu s

/-- `fused_cmp_bcond_eq` and so on, and the same on the low halves: `[rn | imm12<<8]`. -/
def gadgetFusedCmpBcond (w : ℕ) : LastGadget := fun s =>
  let f := subsFlags ((s.cpu.regs (field word 0)).setWidth w)
    ((word.extractLsb' 8 12).setWidth w)
  leaveTo target fallthrough (f.holds cond) { s.cpu with nzcv := f.word } s

/-- `fused_subs_bcond_eq` and so on, and the same on the low halves: `[rd | rn<<8 | imm12<<16]`. -/
def gadgetFusedSubsBcond (w : ℕ) : LastGadget := fun s =>
  let x := (s.cpu.regs (field word 8)).setWidth w
  let y := (word >>> 16).setWidth w
  leaveTo target fallthrough ((subsFlags x y).holds cond)
    { s.cpu with regs := update s.cpu.regs (field word 0) ((x - y).setWidth 64)
                 nzcv := (subsFlags x y).word } s

/-- `fused_cmp_reg_bcond_eq` and so on: `[rn | rm<<8]`. -/
def gadgetFusedCmpRegBcond : LastGadget := fun s =>
  let f := subsFlags (s.cpu.regs (field word 0)) (s.cpu.regs (field word 8))
  leaveTo target fallthrough (f.holds cond) { s.cpu with nzcv := f.word } s

/-- `fused_subs_reg_bcond_eq` and so on: `[rd | rn<<8 | rm<<16]`. -/
def gadgetFusedSubsRegBcond : LastGadget := fun s =>
  let x := s.cpu.regs (field word 8)
  let y := s.cpu.regs (field word 16)
  leaveTo target fallthrough ((subsFlags x y).holds cond)
    { s.cpu with regs := update s.cpu.regs (field word 0) (x - y)
                 nzcv := (subsFlags x y).word } s

/-- `fused_and_cmp32_bcond_eq` and so on: `[rd | rn<<5 | imm12<<10][mask]`. -/
def gadgetFusedAndCmp32Bcond (mask : BitVec 64) : LastGadget := fun s =>
  let x := (s.cpu.regs (field word 5)).setWidth 32 &&& mask.setWidth 32
  let f := subsFlags x ((word.extractLsb' 10 12).setWidth 32)
  leaveTo target fallthrough (f.holds cond)
    { s.cpu with regs := update s.cpu.regs (field word 0) (x.setWidth 64), nzcv := f.word } s

end

/-! ### The translation -/

namespace Insn

variable (insn : Insn)

def cond : ℕ := (insn.bits 0 4).toNat

/-- `arm64_branch_imm19` -/
def imm19 : BitVec 64 := (insn.bits 5 19 ++ 0#2).signExtend 64

/-- `arm64_branch_imm26` -/
def imm26 : BitVec 64 := (insn.bits 0 26 ++ 0#2).signExtend 64

def IsBcond : Prop := insn &&& 0xff000010 = 0x54000000

instance : DecidablePred IsBcond := fun insn => inferInstanceAs (Decidable (insn &&& _ = _))

end Insn

/-- An address with the mark of one that is not chained. -/
def fakeIp (a : BitVec 64) : BitVec 64 := a ||| 1#64 <<< 63

/-- What a call of `gen_step` does: it appends gadgets, and goes on so many bytes behind the next
instruction, with so many branches followed; or it ends the block, with so many bytes read. -/
inductive GenStep where
  | next (gadgets : List Gadget) (skip follows : ℕ)
  | done (last : LastGadget) (read : ℕ)

section

-- what `gen_peek_next_insn` answers at an address
variable (peek : BitVec 64 → Option Insn) (ip : BitVec 64)

def regWidth (sf : Bool) : ℕ := if sf then 64 else 32

def tryFuseSubsBcond (sf : Bool) (rd rn : BitVec 5) (imm12 : BitVec 12) : Option LastGadget := do
  let next ← peek ip
  if next.IsBcond ∧ next.cond < 14 then
    let target := fakeIp (ip + next.imm19)
    let fallthrough := fakeIp (ip + 4)
    if rd = 31 then
      return gadgetFusedCmpBcond (packAt 0 rn ||| packAt 8 imm12) next.cond target fallthrough
        (regWidth sf)
    else
      return gadgetFusedSubsBcond (packAt 0 rd ||| packAt 8 rn ||| packAt 16 imm12) next.cond target
        fallthrough (regWidth sf)
  else none

def tryFuseSubsRegBcond (rd rn rm : BitVec 5) : Option LastGadget := do
  let next ← peek ip
  if next.IsBcond ∧ next.cond < 14 then
    let target := fakeIp (ip + next.imm19)
    let fallthrough := fakeIp (ip + 4)
    if rd = 31 then
      return gadgetFusedCmpRegBcond (packAt 0 rn ||| packAt 8 rm) next.cond target fallthrough
    else
      return gadgetFusedSubsRegBcond (packAt 0 rd ||| packAt 8 rn ||| packAt 16 rm) next.cond target
        fallthrough
  else none

/-- `fused_and_cmp32_bcond_gadgets[cond] != NULL` -/
def hasAndCmp (cond : ℕ) : Bool := cond < 14 && !(4 ≤ cond && cond < 8)

/-- The look ahead of `AND`, for the comparison at `ip`. -/
def tryFuseAndCmp (rd rn : BitVec 5) (imm : BitVec 64) : Option LastGadget := do
  let cmp ← peek ip
  if cmp &&& 0xff800000 = 0x71000000 ∧ cmp.bits 22 1 = 0 ∧ cmp.bits 0 5 = 31 ∧
      cmp.bits 5 5 = rd then
    let br ← peek (ip + 4)
    if br.IsBcond ∧ hasAndCmp br.cond then
      return gadgetFusedAndCmp32Bcond (packAt 0 rd ||| packAt 5 rn ||| packAt 10 (cmp.bits 10 12))
        br.cond (fakeIp (ip + 4 + br.imm19)) (fakeIp (ip + 4 + 4)) (imm &&& 0xffffffff)
    else none
  else none

/-- `gen_dp_imm` for `SUBS` with an immediate that is not shifted. -/
def genSubsImm (insn : Insn) : GenStep :=
  let sf : Bool := insn.bits 31 1 = 1
  match tryFuseSubsBcond peek (ip + 4) sf (insn.bits 0 5) (insn.bits 5 5) (insn.bits 10 12) with
  | some last => .done last 8
  | none => .next [gadgetSubsImm (packAt 0 (insn.bits 0 5) ||| packAt 8 (insn.bits 5 5) |||
      packAt 16 (insn.bits 10 12)) (regWidth sf)] 0 0

/-- `gen_dp_reg` for `SUBS` of whole registers that are not shifted. -/
def genSubsReg (insn : Insn) : GenStep :=
  match tryFuseSubsRegBcond peek (ip + 4) (insn.bits 0 5) (insn.bits 5 5) (insn.bits 16 5) with
  | some last => .done last 8
  | none => .next [gadgetSubsReg64Nshift (packAt 0 (insn.bits 0 5) ||| packAt 8 (insn.bits 5 5) |||
      packAt 16 (insn.bits 16 5))] 0 0

/-- `gen_dp_imm` for `AND` of low halves with this immediate. -/
def genAndImm (insn : Insn) (imm : BitVec 64) : GenStep :=
  match tryFuseAndCmp peek (ip + 4) (insn.bits 0 5) (insn.bits 5 5) imm with
  | some last => .done last 12
  | none => .next [gadgetAndImm32Simple (packAt 0 (insn.bits 0 5) ||| packAt 8 (insn.bits 5 5)) imm]
      0 0

/-- `gen_branch` for `B.cond`. -/
def genBcond (insn : Insn) : GenStep :=
  let target := fakeIp (ip + insn.imm19)
  if insn.cond < 14 then .done (gadgetBcond insn.cond target (fakeIp (ip + 4))) 4
  else .done (gadgetBranch target) 4

-- the instructions, what `gen_step` makes of other ones, and where the block begins
variable (code : BitVec 64 → Option Insn) (other : BitVec 64 → Option Insn → GenStep)
  (start : BitVec 64) (depth : ℕ)

/-- `gen_step`, with `b_follow_depth`. The instructions that look ahead and those looked for are
here, and the branches that are followed. -/
def genStep : GenStep :=
  match code ip with
  | none => other ip none
  | some insn =>
    if insn &&& 0x7fc00000 = 0x71000000 ∧ insn.bits 5 5 ≠ 31 then genSubsImm peek ip insn
    else if insn &&& 0xff20fc00 = 0xeb000000 ∧ insn.bits 22 2 ≠ 3 ∧ insn.bits 5 5 ≠ 31 ∧
        insn.bits 16 5 ≠ 31 then
      genSubsReg peek ip insn
    else if insn &&& 0xff800000 = 0x12000000 ∧ insn.bits 5 5 ≠ 31 ∧ insn.bits 0 5 ≠ 31 then
      match decodeBitmaskImm (insn.bits 22 1) (insn.bits 10 6) (insn.bits 16 6) false with
      | some imm => genAndImm peek ip insn imm
      | none => other ip insn
    else if insn.IsBcond then genBcond ip insn
    else if insn &&& 0xfc000000 = 0x14000000 then
      let target := ip + insn.imm26
      if page target.toNat = page start.toNat ∧ ip < target ∧ depth < 3 then
        .next [] ((target - ip).toNat - 4) 1
      else .done (gadgetBranch (fakeIp target)) 4
    else other ip insn

/-! ### Blocks -/

structure JitBlock where
  gadgets : List Gadget
  last : LastGadget
  size : ℕ

namespace JitBlock

def run (b : JitBlock) (mmu : Mmu) (s : JitState) : Option (JitState × Option ℕ) :=
  (execGadgets mmu b.gadgets s).map b.last

def after (b : JitBlock) (gs : List Gadget) (n : ℕ) : JitBlock :=
  ⟨gs ++ b.gadgets, b.last, n + b.size⟩

/-- They do the same in every state, and are made of the same bytes. -/
def Agrees (b b' : JitBlock) : Prop := (∀ mmu s, b.run mmu s = b'.run mmu s) ∧ b.size = b'.size

end JitBlock

/-- `exit` -/
def gadgetExit (ip : BitVec 64) : LastGadget := fun s =>
  ({ s with cpu := { s.cpu with pc := ip } }, none)

/-- `fiber_block_compile` for what is behind the first `used` bytes. -/
def fiberBlockCompile (used depth : ℕ) : JitBlock :=
  match genStep peek (start + BitVec.ofNat 64 used) code other start depth with
  | .done last read => ⟨[], last, read⟩
  | .next gs skip follows =>
    if pageSize - 15 ≤ used + (4 + skip) then
      ⟨gs, gadgetExit (start + BitVec.ofNat 64 (used + (4 + skip))), 4 + skip⟩
    else (fiberBlockCompile (used + (4 + skip)) (depth + follows)).after gs (4 + skip)
termination_by pageSize - used
decreasing_by omega

/-- So many calls of `gen_step`, none of which looks ahead. -/
def plainBlock : ℕ → ℕ → ℕ → JitBlock
  | 0, used, _ => ⟨[], gadgetExit (start + BitVec.ofNat 64 used), 0⟩
  | n + 1, used, depth =>
    match genStep (fun _ => none) (start + BitVec.ofNat 64 used) code other start depth with
    | .done last read => ⟨[], last, read⟩
    | .next gs skip follows =>
      (plainBlock n (used + (4 + skip)) (depth + follows)).after gs (4 + skip)

end

/-! ### A fused gadget does what the gadgets of its instructions do -/

section

variable {w cond n : ℕ} {rd rn rm : BitVec 5} {imm12 : BitVec 12} {t f : BitVec 64} {s : JitState}
  {mmu : Mmu} {last : LastGadget}

lemma field_pack₂ (rd : BitVec 5) {k : ℕ} (y : BitVec k) (hk : k ≤ 56) :
    field (packAt 0 rd ||| packAt 8 y) 0 = rd.toNat ∧
      (packAt 0 rd ||| packAt 8 y).extractLsb' 8 k = y := by
  obtain ⟨hx, hy⟩ := extract_pack₂ rd y (by decide) hk
  exact ⟨congrArg BitVec.toNat hx, hy⟩

lemma field_pack₃ (rd rn : BitVec 5) {k : ℕ} (z : BitVec k) (hk : k ≤ 48) :
    field (packAt 0 rd ||| packAt 8 rn ||| packAt 16 z) 0 = rd.toNat ∧
      field (packAt 0 rd ||| packAt 8 rn ||| packAt 16 z) 8 = rn.toNat ∧
      (packAt 0 rd ||| packAt 8 rn ||| packAt 16 z).extractLsb' 16 k = z := by
  obtain ⟨hx, hy, hz⟩ := extract_pack₃ rd rn z (by decide) (by decide) hk
  exact ⟨congrArg BitVec.toNat hx, congrArg BitVec.toNat hy, hz⟩

lemma setWidth_shift_pack₃ :
    ((packAt 0 rd ||| packAt 8 rn ||| packAt 16 imm12) >>> 16).setWidth w = imm12.setWidth w := by
  ext i hi
  have hz : (packAt 0 rd ||| packAt 8 rn ||| packAt 16 imm12).getLsbD (16 + i) =
      imm12.getLsbD i := by
    have h₁ : rd.getLsbD (16 + i) = false := BitVec.getLsbD_of_ge _ _ (by omega)
    have h₂ : rn.getLsbD (16 + i - 8) = false := BitVec.getLsbD_of_ge _ _ (by omega)
    by_cases h : 16 + i < 64
    · simp [packAt, h₁, h₂, h]
    · have h₃ : imm12.getLsbD i = false := BitVec.getLsbD_of_ge _ _ (by omega)
      rw [BitVec.getLsbD_of_ge _ _ (by omega), h₃]
  simpa using hz

/-- What a fused gadget does after it has compared. -/
def subsLeave (cond : ℕ) (t f : BitVec 64) (rd : ℕ) (x y : BitVec w) : LastGadget := fun s =>
  leaveTo t f ((subsFlags x y).holds cond) (subsTo rd x y s.cpu) s

lemma gadgetBcond_subsTo {r : ℕ} (x y : BitVec w) :
    gadgetBcond cond t f { s with cpu := subsTo r x y s.cpu } = subsLeave cond t f r x y s := by
  have hflags : (subsTo r x y s.cpu).nzcv = (subsFlags x y).word := by
    unfold subsTo JitCpu.setReg
    split_ifs <;> rfl
  rw [gadgetBcond, hflags, Nzcv.ofWord_word]
  rfl

lemma gadgetSubsImm_eq :
    gadgetSubsImm (packAt 0 rd ||| packAt 8 rn ||| packAt 16 imm12) w = onCpu fun c =>
      subsTo rd.toNat ((c.regs rn.toNat).setWidth w) (imm12.setWidth w) c := by
  obtain ⟨hrd, hrn, himm⟩ := field_pack₃ rd rn imm12 (by decide)
  rw [gadgetSubsImm, hrd, hrn, himm]

lemma gadgetSubsReg64Nshift_eq :
    gadgetSubsReg64Nshift (packAt 0 rd ||| packAt 8 rn ||| packAt 16 rm) = onCpu fun c =>
      subsTo rd.toNat (c.regs rn.toNat) (c.regs rm.toNat) c := by
  obtain ⟨hrd, hrn, hrm⟩ := field_pack₃ rd rn rm (by decide)
  rw [gadgetSubsReg64Nshift, hrd, hrn, field, hrm]

lemma gadgetFusedCmpBcond_eq (hrd : rd = 31) :
    gadgetFusedCmpBcond (packAt 0 rn ||| packAt 8 imm12) cond t f w s =
      subsLeave cond t f rd.toNat ((s.cpu.regs rn.toNat).setWidth w) (imm12.setWidth w) s := by
  obtain ⟨hrn, himm⟩ := field_pack₂ rn imm12 (by decide)
  rw [gadgetFusedCmpBcond, hrn, himm, hrd]
  rfl

lemma gadgetFusedSubsBcond_eq (hrd : rd ≠ 31) :
    gadgetFusedSubsBcond (packAt 0 rd ||| packAt 8 rn ||| packAt 16 imm12) cond t f w s =
      subsLeave cond t f rd.toNat ((s.cpu.regs rn.toNat).setWidth w) (imm12.setWidth w) s := by
  obtain ⟨hrd', hrn, -⟩ := field_pack₃ rd rn imm12 (by decide)
  have hne : rd.toNat ≠ 31 := fun h => hrd (BitVec.eq_of_toNat_eq h)
  rw [gadgetFusedSubsBcond, hrd', hrn, setWidth_shift_pack₃, subsLeave, subsTo,
    JitCpu.setReg_of_ne hne]

lemma gadgetFusedCmpRegBcond_eq (hrd : rd = 31) :
    gadgetFusedCmpRegBcond (packAt 0 rn ||| packAt 8 rm) cond t f s =
      subsLeave cond t f rd.toNat (s.cpu.regs rn.toNat) (s.cpu.regs rm.toNat) s := by
  obtain ⟨hrn, hrm⟩ := field_pack₂ rn rm (by decide)
  rw [gadgetFusedCmpRegBcond, hrn, field, hrm, hrd]
  rfl

lemma gadgetFusedSubsRegBcond_eq (hrd : rd ≠ 31) :
    gadgetFusedSubsRegBcond (packAt 0 rd ||| packAt 8 rn ||| packAt 16 rm) cond t f s =
      subsLeave cond t f rd.toNat (s.cpu.regs rn.toNat) (s.cpu.regs rm.toNat) s := by
  obtain ⟨hrd', hrn, hrm⟩ := field_pack₃ rd rn rm (by decide)
  have hne : rd.toNat ≠ 31 := fun h => hrd (BitVec.eq_of_toNat_eq h)
  rw [gadgetFusedSubsRegBcond, hrd', hrn, field, hrm, subsLeave, subsTo, JitCpu.setReg_of_ne hne,
    BitVec.setWidth_eq]

def andImm (rd rn : BitVec 5) (imm : BitVec 64) (c : JitCpu) : JitCpu :=
  let x := (c.regs rn.toNat).setWidth 32 &&& imm.setWidth 32
  { c with regs := update c.regs rd.toNat (x.setWidth 64) }

lemma gadgetAndImm32Simple_eq (imm : BitVec 64) :
    gadgetAndImm32Simple (packAt 0 rd ||| packAt 8 rn) imm = onCpu (andImm rd rn imm) := by
  obtain ⟨hrd, hrn⟩ := field_pack₂ rd rn (by decide)
  rw [gadgetAndImm32Simple, hrd, field, hrn]
  rfl

lemma gadgetFusedAndCmp32Bcond_eq (imm : BitVec 64) :
    gadgetFusedAndCmp32Bcond (packAt 0 rd ||| packAt 5 rn ||| packAt 10 imm12) cond t f
        (imm &&& 0xffffffff) s =
      subsLeave cond t f 31 (((andImm rd rn imm s.cpu).regs rd.toNat).setWidth 32)
        (imm12.setWidth 32) { s with cpu := andImm rd rn imm s.cpu } := by
  have hrd : field (packAt 0 rd ||| packAt 5 rn ||| packAt 10 imm12) 0 = rd.toNat := by
    rw [field, BitVec.extractLsb'_or, BitVec.extractLsb'_or, extract_packAt rd (by decide),
      extract_packAt_below rn (by decide), extract_packAt_below imm12 (by decide)]
    simp
  have hrn : field (packAt 0 rd ||| packAt 5 rn ||| packAt 10 imm12) 5 = rn.toNat := by
    rw [field, BitVec.extractLsb'_or, BitVec.extractLsb'_or, extract_packAt rn (by decide),
      extract_packAt_above rd (by decide), extract_packAt_below imm12 (by decide)]
    simp
  have himm : (packAt 0 rd ||| packAt 5 rn ||| packAt 10 imm12).extractLsb' 10 12 = imm12 := by
    rw [BitVec.extractLsb'_or, BitVec.extractLsb'_or, extract_packAt imm12 (by decide),
      extract_packAt_above rd (by decide), extract_packAt_above rn (by decide)]
    simp
  have hmask : (imm &&& 0xffffffff).setWidth 32 = imm.setWidth 32 := by
    rw [BitVec.setWidth_and]
    exact BitVec.and_allOnes
  have hx : ((andImm rd rn imm s.cpu).regs rd.toNat).setWidth 32 =
      (s.cpu.regs rn.toNat).setWidth 32 &&& imm.setWidth 32 := by
    simp only [andImm, update_self]
    rw [BitVec.setWidth_setWidth_of_le _ (by decide), BitVec.setWidth_eq]
  rw [gadgetFusedAndCmp32Bcond, hrd, hrn, himm, hmask, hx]
  rfl

end

/-! ### A block does what its instructions do one by one -/

section

variable {code : BitVec 64 → Option Insn} {other : BitVec 64 → Option Insn → GenStep}
  {start ip : BitVec 64} {depth : ℕ} {insn next : Insn} {last : LastGadget}

lemma genStep_bcond (peek : BitVec 64 → Option Insn) (hcode : code ip = some next)
    (h : next.IsBcond) (hcond : next.cond < 14) :
    genStep peek ip code other start depth =
      .done (gadgetBcond next.cond (fakeIp (ip + next.imm19)) (fakeIp (ip + 4))) 4 := by
  have himm : next &&& 0x7fc00000 ≠ 0x71000000 := and_mask_ne h (by decide)
  have hreg : next &&& 0xff20fc00 ≠ 0xeb000000 := and_mask_ne h (by decide)
  have hand : next &&& 0xff800000 ≠ 0x12000000 := and_mask_ne h (by decide)
  simp only [genStep, hcode, himm, hreg, hand, false_and, if_false, if_pos h, genBcond,
    if_pos hcond]

lemma plainBlock_next {used n : ℕ} {g : JitCpu → JitCpu}
    (hip : start + BitVec.ofNat 64 used = ip)
    (hstep : genStep (fun _ => none) ip code other start depth = .next [onCpu g] 0 0) :
    plainBlock code other start (n + 1) used depth =
      (plainBlock code other start n (used + 4) depth).after [onCpu g] 4 := by
  rw [plainBlock, hip, hstep]
  rfl

lemma add_four {used : ℕ} (hip : start + BitVec.ofNat 64 used = ip) :
    start + BitVec.ofNat 64 (used + 4) = ip + 4 := by
  rw [BitVec.ofNat_add, ← BitVec.add_assoc, hip]
  rfl

/-- A comparison and the branch behind it, each by itself. -/
lemma agrees_pair {used : ℕ} {g : JitCpu → JitCpu} (hip : start + BitVec.ofNat 64 used = ip)
    (hstep : genStep (fun _ => none) ip code other start depth = .next [onCpu g] 0 0)
    (hcode : code (ip + 4) = some next) (h : next.IsBcond) (hcond : next.cond < 14)
    (hlast : ∀ s, ∃ (w r : ℕ) (x y : BitVec w), g s.cpu = subsTo r x y s.cpu ∧ last s =
      subsLeave next.cond (fakeIp (ip + 4 + next.imm19)) (fakeIp (ip + 4 + 4)) r x y s) :
    (JitBlock.mk [] last 8).Agrees (plainBlock code other start 2 used depth) := by
  have hone : plainBlock code other start 1 (used + 4) depth =
      ⟨[], gadgetBcond next.cond (fakeIp (ip + 4 + next.imm19)) (fakeIp (ip + 4 + 4)), 4⟩ := by
    rw [plainBlock, add_four hip, genStep_bcond _ hcode h hcond]
  rw [plainBlock_next hip hstep, hone]
  refine ⟨fun mmu s => ?_, rfl⟩
  obtain ⟨w, r, x, y, hg, hl⟩ := hlast s
  calc some (last s)
      = some (gadgetBcond next.cond (fakeIp (ip + 4 + next.imm19)) (fakeIp (ip + 4 + 4))
          { s with cpu := g s.cpu }) := by rw [hl, hg, gadgetBcond_subsTo]
    _ = _ := rfl

lemma tryFuseSubsBcond_eq_some {sf : Bool} {rd rn : BitVec 5} {imm12 : BitVec 12}
    (h : tryFuseSubsBcond code ip sf rd rn imm12 = some last) :
    ∃ next, code ip = some next ∧ next.IsBcond ∧ next.cond < 14 ∧ ∀ s, last s =
      subsLeave next.cond (fakeIp (ip + next.imm19)) (fakeIp (ip + 4)) rd.toNat
        ((s.cpu.regs rn.toNat).setWidth (regWidth sf))
        (imm12.setWidth (regWidth sf)) s := by
  obtain ⟨next, hcode, h⟩ := Option.bind_eq_some_iff.mp h
  split_ifs at h with hb hrd
  · obtain rfl := Option.some.inj h
    exact ⟨next, hcode, hb.1, hb.2, fun s => by rw [gadgetFusedCmpBcond_eq hrd]⟩
  · obtain rfl := Option.some.inj h
    exact ⟨next, hcode, hb.1, hb.2, fun s => gadgetFusedSubsBcond_eq hrd⟩

lemma tryFuseSubsRegBcond_eq_some {rd rn rm : BitVec 5}
    (h : tryFuseSubsRegBcond code ip rd rn rm = some last) :
    ∃ next, code ip = some next ∧ next.IsBcond ∧ next.cond < 14 ∧ ∀ s, last s =
      subsLeave next.cond (fakeIp (ip + next.imm19)) (fakeIp (ip + 4)) rd.toNat
        (s.cpu.regs rn.toNat) (s.cpu.regs rm.toNat) s := by
  obtain ⟨next, hcode, h⟩ := Option.bind_eq_some_iff.mp h
  split_ifs at h with hb hrd
  · obtain rfl := Option.some.inj h
    exact ⟨next, hcode, hb.1, hb.2, fun s => gadgetFusedCmpRegBcond_eq hrd⟩
  · obtain rfl := Option.some.inj h
    exact ⟨next, hcode, hb.1, hb.2, fun s => gadgetFusedSubsRegBcond_eq hrd⟩

lemma tryFuseAndCmp_eq_some {rd rn : BitVec 5} {imm : BitVec 64}
    (h : tryFuseAndCmp code ip rd rn imm = some last) :
    ∃ cmp br, code ip = some cmp ∧ cmp &&& 0xff800000 = 0x71000000 ∧ cmp.bits 22 1 = 0 ∧
      cmp.bits 0 5 = 31 ∧ cmp.bits 5 5 = rd ∧ code (ip + 4) = some br ∧ br.IsBcond ∧
      br.cond < 14 ∧ ∀ s, last s =
        subsLeave br.cond (fakeIp (ip + 4 + br.imm19)) (fakeIp (ip + 4 + 4)) 31
          (((andImm rd rn imm s.cpu).regs rd.toNat).setWidth 32) ((cmp.bits 10 12).setWidth 32)
          { s with cpu := andImm rd rn imm s.cpu } := by
  obtain ⟨cmp, hcode, h⟩ := Option.bind_eq_some_iff.mp h
  split_ifs at h with hcmp
  obtain ⟨hmask, hsh, hrd, hrn⟩ := hcmp
  obtain ⟨br, hbr, h⟩ := Option.bind_eq_some_iff.mp h
  split_ifs at h with hb
  obtain rfl := Option.some.inj h
  have hcond : br.cond < 14 := by
    have hhas := hb.2
    simp only [hasAndCmp, Bool.and_eq_true, decide_eq_true_eq] at hhas
    exact hhas.1
  exact ⟨cmp, br, hcode, hmask, hsh, hrd, hrn, hbr, hb.1, hcond,
    fun s => gadgetFusedAndCmp32Bcond_eq imm⟩

lemma genStep_subsImm (peek : BitVec 64 → Option Insn) (hcode : code ip = some insn)
    (h : insn &&& 0x7fc00000 = 0x71000000 ∧ insn.bits 5 5 ≠ 31) :
    genStep peek ip code other start depth = genSubsImm peek ip insn := by
  simp only [genStep, hcode, if_pos h]

lemma genSubsImm_plain : genSubsImm (fun _ => none) ip insn = .next [onCpu fun c =>
    subsTo (insn.bits 0 5).toNat
      ((c.regs (insn.bits 5 5).toNat).setWidth (regWidth (insn.bits 31 1 = 1)))
      ((insn.bits 10 12).setWidth (regWidth (insn.bits 31 1 = 1))) c] 0 0 := by
  rw [← gadgetSubsImm_eq]
  rfl

lemma genSubsReg_plain : genSubsReg (fun _ => none) ip insn = .next [onCpu fun c =>
    subsTo (insn.bits 0 5).toNat (c.regs (insn.bits 5 5).toNat)
      (c.regs (insn.bits 16 5).toNat) c] 0 0 := by
  rw [← gadgetSubsReg64Nshift_eq]
  rfl

lemma genAndImm_plain {imm : BitVec 64} : genAndImm (fun _ => none) ip insn imm =
    .next [onCpu (andImm (insn.bits 0 5) (insn.bits 5 5) imm)] 0 0 := by
  rw [← gadgetAndImm32Simple_eq]
  rfl

lemma agrees_subsImm {used : ℕ} (hip : start + BitVec.ofNat 64 used = ip)
    (hcode : code ip = some insn) (h : insn &&& 0x7fc00000 = 0x71000000 ∧ insn.bits 5 5 ≠ 31)
    (hfuse : tryFuseSubsBcond code (ip + 4) (insn.bits 31 1 = 1) (insn.bits 0 5) (insn.bits 5 5)
      (insn.bits 10 12) = some last) :
    (JitBlock.mk [] last 8).Agrees (plainBlock code other start 2 used depth) := by
  obtain ⟨next, hnext, hb, hcond, hlast⟩ := tryFuseSubsBcond_eq_some hfuse
  exact agrees_pair hip ((genStep_subsImm _ hcode h).trans genSubsImm_plain) hnext hb hcond
    fun s => ⟨_, _, _, _, rfl, hlast s⟩

/-- `AND`, comparison and branch, each by itself. -/
lemma agrees_andCmp {used : ℕ} {imm : BitVec 64} (hip : start + BitVec.ofNat 64 used = ip)
    (hrd : insn.bits 0 5 ≠ 31)
    (hstep : genStep (fun _ => none) ip code other start depth =
      .next [onCpu (andImm (insn.bits 0 5) (insn.bits 5 5) imm)] 0 0)
    (hfuse : tryFuseAndCmp code (ip + 4) (insn.bits 0 5) (insn.bits 5 5) imm = some last) :
    (JitBlock.mk [] last 12).Agrees (plainBlock code other start 3 used depth) := by
  obtain ⟨cmp, br, hcmp, hmask, hsh, hrd', hrn, hbr, hb, hcond, hlast⟩ :=
    tryFuseAndCmp_eq_some hfuse
  have hbit : cmp &&& 0x00400000 = 0 := by
    have h22 : cmp.getLsbD 22 = false := by
      simpa [Insn.bits] using congrArg (BitVec.getLsbD · 0) hsh
    exact (BitVec.and_twoPow cmp 22).trans (by rw [h22]; rfl)
  have hsubs : cmp &&& 0x7fc00000 = 0x71000000 ∧ cmp.bits 5 5 ≠ 31 := by
    refine ⟨?_, hrn ▸ hrd⟩
    calc cmp &&& 0x7fc00000
        = (cmp &&& 0xff800000 &&& 0x7f800000) ||| (cmp &&& 0x00400000) := by
          rw [BitVec.and_assoc, ← BitVec.and_or_distrib_left]
          rfl
      _ = 0x71000000 := by rw [hmask, hbit]; rfl
  have hsf : regWidth (cmp.bits 31 1 = 1) = 32 := by
    rw [Insn.bits_of_mask hmask (by decide)]
    rfl
  have hpair : (JitBlock.mk [] (fun s => subsLeave br.cond (fakeIp (ip + 4 + 4 + br.imm19))
      (fakeIp (ip + 4 + 4 + 4)) 31 ((s.cpu.regs (cmp.bits 5 5).toNat).setWidth 32)
      ((cmp.bits 10 12).setWidth 32) s) 8).Agrees
        (plainBlock code other start 2 (used + 4) depth) :=
    agrees_pair (add_four hip) ((genStep_subsImm _ hcmp hsubs).trans genSubsImm_plain) hbr hb hcond
      fun s => ⟨32, 31, _, _, by rw [hsf, hrd']; rfl, rfl⟩
  rw [plainBlock_next hip hstep]
  refine ⟨fun mmu s => ?_, congrArg (4 + ·) hpair.2⟩
  have hrun := hpair.1 mmu { s with cpu := andImm (insn.bits 0 5) (insn.bits 5 5) imm s.cpu }
  calc some (last s) = _ := by rw [hlast, ← hrn]; rfl
    _ = _ := hrun

/-- A look ahead finds nothing, or a block ends as its instructions do one by one. -/
lemma genStep_cases (used : ℕ) (hip : start + BitVec.ofNat 64 used = ip) :
    genStep code ip code other start depth = genStep (fun _ => none) ip code other start depth ∨
      ∃ last read n, genStep code ip code other start depth = .done last read ∧
        (JitBlock.mk [] last read).Agrees (plainBlock code other start n used depth) := by
  cases hcode : code ip with
  | none => exact Or.inl (by simp only [genStep, hcode])
  | some insn =>
    by_cases himm : insn &&& 0x7fc00000 = 0x71000000 ∧ insn.bits 5 5 ≠ 31
    · cases hfuse : tryFuseSubsBcond code (ip + 4) (insn.bits 31 1 = 1) (insn.bits 0 5)
          (insn.bits 5 5) (insn.bits 10 12) with
      | none =>
        refine Or.inl ?_
        rw [genStep_subsImm _ hcode himm, genStep_subsImm _ hcode himm, genSubsImm, hfuse]
        rfl
      | some last =>
        refine Or.inr ⟨last, 8, 2, ?_, agrees_subsImm hip hcode himm hfuse⟩
        rw [genStep_subsImm _ hcode himm, genSubsImm, hfuse]
    by_cases hreg : insn &&& 0xff20fc00 = 0xeb000000 ∧ insn.bits 22 2 ≠ 3 ∧ insn.bits 5 5 ≠ 31 ∧
        insn.bits 16 5 ≠ 31
    · have hstep (peek : BitVec 64 → Option Insn) :
          genStep peek ip code other start depth = genSubsReg peek ip insn := by
        simp only [genStep, hcode, if_neg himm, if_pos hreg]
      cases hfuse : tryFuseSubsRegBcond code (ip + 4) (insn.bits 0 5) (insn.bits 5 5)
          (insn.bits 16 5) with
      | none =>
        refine Or.inl ?_
        rw [hstep, hstep, genSubsReg, hfuse]
        rfl
      | some last =>
        obtain ⟨next, hnext, hb, hcond, hlast⟩ := tryFuseSubsRegBcond_eq_some hfuse
        refine Or.inr ⟨last, 8, 2, by rw [hstep, genSubsReg, hfuse], ?_⟩
        exact agrees_pair hip ((hstep _).trans genSubsReg_plain) hnext hb hcond
          fun s => ⟨_, _, _, _, rfl, hlast s⟩
    by_cases hand : insn &&& 0xff800000 = 0x12000000 ∧ insn.bits 5 5 ≠ 31 ∧ insn.bits 0 5 ≠ 31
    · cases himm' : decodeBitmaskImm (insn.bits 22 1) (insn.bits 10 6) (insn.bits 16 6) false with
      | none => exact Or.inl (by simp only [genStep, hcode, if_neg himm, if_neg hreg, himm'])
      | some imm =>
        have hstep (peek : BitVec 64 → Option Insn) :
            genStep peek ip code other start depth = genAndImm peek ip insn imm := by
          simp only [genStep, hcode, if_neg himm, if_neg hreg, if_pos hand, himm']
        cases hfuse : tryFuseAndCmp code (ip + 4) (insn.bits 0 5) (insn.bits 5 5) imm with
        | none =>
          refine Or.inl ?_
          rw [hstep, hstep, genAndImm, hfuse]
          rfl
        | some last =>
          refine Or.inr ⟨last, 12, 3, by rw [hstep, genAndImm, hfuse], ?_⟩
          exact agrees_andCmp hip hand.2.2 ((hstep _).trans genAndImm_plain) hfuse
    exact Or.inl (by simp only [genStep, hcode, if_neg himm, if_neg hreg, if_neg hand])

lemma JitBlock.Agrees.after {b b' : JitBlock} (h : b.Agrees b') (gs : List Gadget) (n : ℕ) :
    (b.after gs n).Agrees (b'.after gs n) := by
  refine ⟨fun mmu s => ?_, congrArg (n + ·) h.2⟩
  have hrun (b : JitBlock) :
      (b.after gs n).run mmu s = (execGadgets mmu gs s).bind (b.run mmu) := by
    rw [JitBlock.run, JitBlock.after, execGadgets, List.foldlM_append]
    cases hgs : gs.foldlM (fun s g => g mmu s) s <;> simp [execGadgets, hgs, JitBlock.run]
  rw [hrun, hrun]
  exact congrArg _ (funext (h.1 mmu))

/-- With its look ahead, the translator makes blocks that do what their instructions do when each of
them is translated by itself. -/
theorem fiberBlockCompile_agrees (code : BitVec 64 → Option Insn)
    (other : BitVec 64 → Option Insn → GenStep) (start : BitVec 64) (used depth : ℕ) :
    ∃ n, (fiberBlockCompile code code other start used depth).Agrees
      (plainBlock code other start n used depth) := by
  induction hk : pageSize - used using Nat.strong_induction_on generalizing used depth with
  | _ k ih =>
    rw [fiberBlockCompile]
    rcases genStep_cases used rfl with heq | ⟨last, read, n, hdone, hagrees⟩
    · rw [heq]
      cases hstep : genStep (fun _ => none) (start + BitVec.ofNat 64 used) code other start
          depth with
      | done last read =>
        refine ⟨1, ?_⟩
        rw [plainBlock, hstep]
        exact ⟨fun mmu s => rfl, rfl⟩
      | next gs skip follows =>
        simp only
        split_ifs with hfull
        · refine ⟨1, ?_⟩
          rw [plainBlock, hstep]
          exact ⟨fun mmu s => by simp [JitBlock.run, JitBlock.after, plainBlock], rfl⟩
        · obtain ⟨n, hn⟩ := ih _ (by omega) (used + (4 + skip)) (depth + follows) rfl
          refine ⟨n + 1, ?_⟩
          rw [plainBlock, hstep]
          exact hn.after gs _
    · rw [hdone]
      exact ⟨n, hagrees⟩

end

end ShellBox
