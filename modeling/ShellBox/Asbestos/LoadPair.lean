import ShellBox.Asbestos.Gadgets

/-!
# Loads and stores of pairs

The part of the translator for pairs of registers, and its gadgets. A pair with an offset is one
gadget. A pair with a new base is one gadget for doublewords, if the base is the stack pointer or if
no register is number 31 and the base is not loaded; otherwise the address, the access and the base
are three.
-/

namespace ShellBox

/-! ### The gadgets -/

/-- A load of two values of `e` bytes at `_addr`. -/
def loadPair (e : ℕ) (put : JitCpu → BitVec 128 → BitVec 128 → JitCpu) : Gadget :=
  readAccess (e + e) fun c bytes =>
    put c (.ofNat 128 (loadLE bytes 0 e)) (.ofNat 128 (loadLE bytes e e))

/-- A store of two values of `e` bytes at `_addr`. -/
def storePair (e : ℕ) (v1 v2 : BitVec 64) : Gadget := fun mmu s =>
  s.writeAccess mmu (e + e) [⟨0, e, v1.toNat⟩, ⟨e, e, v2.toNat⟩]

namespace JitCpu

def putRegs (rt rt2 : ℕ) (c : JitCpu) (v1 v2 : BitVec 128) : JitCpu :=
  (c.setReg rt (v1.setWidth 64)).setReg rt2 (v2.setWidth 64)

def putSlots (rt rt2 : ℕ) (c : JitCpu) (v1 v2 : BitVec 128) : JitCpu :=
  (c.setSlot rt (v1.setWidth 64)).setSlot rt2 (v2.setWidth 64)

def setFp (c : JitCpu) (i : ℕ) (v : BitVec 128) : JitCpu :=
  { c with fp := Function.update c.fp i v }

def putFps (rt rt2 : ℕ) (c : JitCpu) (v1 v2 : BitVec 128) : JitCpu := (c.setFp rt v1).setFp rt2 v2

end JitCpu

section Generic

variable (e : ℕ) (w : BitVec 64)

/-- `ldp64` and `ldp32` -/
def ldpAt : Gadget :=
  restoreAddr (loadPair e (JitCpu.putRegs (w.extractLsb' 0 5).toNat (w.extractLsb' 8 5).toNat))

/-- `stp64` and `stp32` -/
def stpAt : Gadget := fun mmu s =>
  restoreAddr (storePair e (s.cpu.reg (w.extractLsb' 0 5).toNat)
    (s.cpu.reg (w.extractLsb' 8 5).toNat)) mmu s

end Generic

def gadgetLdp64 (w : BitVec 64) : Gadget := ldpAt 8 w
def gadgetLdp32 (w : BitVec 64) : Gadget := ldpAt 4 w
def gadgetStp64 (w : BitVec 64) : Gadget := stpAt 8 w
def gadgetStp32 (w : BitVec 64) : Gadget := stpAt 4 w

section Imm

variable (e : ℕ) (w : BitVec 64)

def immAddr (s : JitState) : JitState :=
  { s with addr := guestAddr (s.cpu.slot (w.extractLsb' 16 5).toNat
      + (w.extractLsb' 24 16).signExtend 64) }

/-- `ldp64_imm` and `ldp32_imm` -/
def ldpImm : Gadget := fun mmu s => ldpAt e w mmu (immAddr w s)

def ldpImmFast : Gadget := fun mmu s =>
  loadPair e (JitCpu.putSlots (w.extractLsb' 0 5).toNat (w.extractLsb' 8 5).toNat) mmu (immAddr w s)

/-- `stp64_imm` and `stp32_imm` -/
def stpImm : Gadget := fun mmu s => stpAt e w mmu (immAddr w s)

def stpImmFast : Gadget := fun mmu s =>
  storePair e (s.cpu.slot (w.extractLsb' 0 5).toNat) (s.cpu.slot (w.extractLsb' 8 5).toNat) mmu
    (immAddr w s)

end Imm

def gadgetLdp64Imm (w : BitVec 64) : Gadget := ldpImm 8 w
def gadgetLdp32Imm (w : BitVec 64) : Gadget := ldpImm 4 w
def gadgetStp64Imm (w : BitVec 64) : Gadget := stpImm 8 w
def gadgetStp32Imm (w : BitVec 64) : Gadget := stpImm 4 w
def gadgetLdp64ImmFast (w : BitVec 64) : Gadget := ldpImmFast 8 w
def gadgetLdp32ImmFast (w : BitVec 64) : Gadget := ldpImmFast 4 w
def gadgetStp64ImmFast (w : BitVec 64) : Gadget := stpImmFast 8 w
def gadgetStp32ImmFast (w : BitVec 64) : Gadget := stpImmFast 4 w

section Writeback

variable (pre : Bool) (rn : ℕ) (off : BitVec 64)

def withBase (g : Gadget) : Gadget := fun mmu s => do
  let base := guestAddr (s.cpu.slot rn + off)
  let s' ← g mmu { s with addr := if pre then base else guestAddr (s.cpu.slot rn) }
  return { s' with cpu := s'.cpu.setSlot rn base }

end Writeback

section Sp

variable (w : BitVec 64)

def spOff : BitVec 64 := (w.extractLsb' 16 32).signExtend 64

def ldpSp (pre : Bool) : Gadget := withBase pre 31 (spOff w)
  (loadPair 8 (JitCpu.putSlots (w.extractLsb' 0 5).toNat (w.extractLsb' 8 5).toNat))

def stpSp (pre : Bool) : Gadget := fun mmu s => withBase pre 31 (spOff w)
  (storePair 8 (s.cpu.reg (w.extractLsb' 0 5).toNat) (s.cpu.reg (w.extractLsb' 8 5).toNat)) mmu s

end Sp

def gadgetLdp64ImmPreidxSp (w : BitVec 64) : Gadget := ldpSp w true
def gadgetLdp64ImmPostidxSp (w : BitVec 64) : Gadget := ldpSp w false
def gadgetStp64ImmPreidxSp (w : BitVec 64) : Gadget := stpSp w true
def gadgetStp64ImmPostidxSp (w : BitVec 64) : Gadget := stpSp w false

section Fast

variable (w : BitVec 64)

def fastOff : BitVec 64 := (w.extractLsb' 24 16).signExtend 64

def ldpFast (pre : Bool) : Gadget := withBase pre (w.extractLsb' 16 5).toNat (fastOff w)
  (loadPair 8 (JitCpu.putSlots (w.extractLsb' 0 5).toNat (w.extractLsb' 8 5).toNat))

def stpFast (pre : Bool) : Gadget := fun mmu s =>
  withBase pre (w.extractLsb' 16 5).toNat (fastOff w)
    (storePair 8 (s.cpu.slot (w.extractLsb' 0 5).toNat) (s.cpu.slot (w.extractLsb' 8 5).toNat))
    mmu s

end Fast

def gadgetLdp64ImmPreidxFast (w : BitVec 64) : Gadget := ldpFast w true
def gadgetLdp64ImmPostidxFast (w : BitVec 64) : Gadget := ldpFast w false
def gadgetStp64ImmPreidxFast (w : BitVec 64) : Gadget := stpFast w true
def gadgetStp64ImmPostidxFast (w : BitVec 64) : Gadget := stpFast w false

section Simd

variable (w : BitVec 64)

/-- Vector registers, of which `e` bytes are loaded and the others cleared. -/
def ldpSimd (e : ℕ) : Gadget :=
  loadPair e (JitCpu.putFps (w.extractLsb' 0 5).toNat (w.extractLsb' 8 5).toNat)

end Simd

def gadgetLdpSimdS (w : BitVec 64) : Gadget := ldpSimd w 4
def gadgetLdpSimdD (w : BitVec 64) : Gadget := ldpSimd w 8
def gadgetLdpSimdQ (w : BitVec 64) : Gadget := ldpSimd w 16

def fpLow (c : JitCpu) (i : ℕ) : BitVec 64 := (c.fp i).extractLsb' 0 64

def fpHigh (c : JitCpu) (i : ℕ) : BitVec 64 := (c.fp i).extractLsb' 64 64

def gadgetStpSimdS (w : BitVec 64) : Gadget := fun mmu s =>
  restoreAddr (storePair 4 (fpLow s.cpu (w.extractLsb' 0 5).toNat)
    (fpLow s.cpu (w.extractLsb' 8 5).toNat)) mmu s

def gadgetStpSimdD (w : BitVec 64) : Gadget := fun mmu s =>
  restoreAddr (storePair 8 (fpLow s.cpu (w.extractLsb' 0 5).toNat)
    (fpLow s.cpu (w.extractLsb' 8 5).toNat)) mmu s

/-- `stp_simd_q` stores four doublewords. -/
def gadgetStpSimdQ (w : BitVec 64) : Gadget := fun mmu s =>
  let rt := (w.extractLsb' 0 5).toNat
  let rt2 := (w.extractLsb' 8 5).toNat
  restoreAddr (fun mmu s => s.writeAccess mmu 32
    [⟨0, 8, (fpLow s.cpu rt).toNat⟩, ⟨8, 8, (fpHigh s.cpu rt).toNat⟩,
      ⟨16, 8, (fpLow s.cpu rt2).toNat⟩, ⟨24, 8, (fpHigh s.cpu rt2).toNat⟩]) mmu s

/-! ### The translation -/

namespace Insn

variable (insn : Insn)

def pairOpc : ℕ := (insn.bits 30 2).toNat

def pairIsLoad : Bool := insn.bits 22 1 = 1

/-- 1 is post-indexed, 3 pre-indexed, 2 and 0 (without a temporal hint) have an offset. -/
def pairMode : ℕ := (insn.bits 23 3).toNat

/-- `rt | (rt2 << 8)` -/
def pairRegs : BitVec 64 := packAt 0 (insn.bits 0 5) ||| packAt 8 (insn.bits 10 5)

/-- `rn` -/
def pairBase : BitVec 64 := packAt 0 (insn.bits 5 5)

def pairOffset : BitVec 64 := insn.imm7 * (if insn.pairOpc = 2 then 8 else 4)

def simdOffset : BitVec 64 :=
  insn.imm7 * (if insn.pairOpc = 0 then 4 else if insn.pairOpc = 1 then 8 else 16)

/-- `rt | rt2 << 8 | rn << 16 | off16 << 24` -/
def pairParam : BitVec 64 :=
  insn.pairRegs ||| packAt 16 (insn.bits 5 5) ||| packAt 24 (insn.pairOffset.setWidth 16)

/-- `rt | rt2 << 8 | off32 << 16` -/
def pairSpParam : BitVec 64 := insn.pairRegs ||| packAt 16 (insn.pairOffset.setWidth 32)

end Insn

section Paths

variable (insn : Insn)

def pairImmPath (fastPair : Bool) : List Gadget :=
  let is64 := insn.pairOpc = 2
  let param := insn.pairParam
  [if insn.pairIsLoad then
      if fastPair then if is64 then gadgetLdp64ImmFast param else gadgetLdp32ImmFast param
      else if is64 then gadgetLdp64Imm param else gadgetLdp32Imm param
    else
      if fastPair then if is64 then gadgetStp64ImmFast param else gadgetStp32ImmFast param
      else if is64 then gadgetStp64Imm param else gadgetStp32Imm param]

def pairSpPath : List Gadget :=
  let isPre := insn.pairMode = 3
  let param := insn.pairSpParam
  [if insn.pairIsLoad then
      if isPre then gadgetLdp64ImmPreidxSp param else gadgetLdp64ImmPostidxSp param
    else if isPre then gadgetStp64ImmPreidxSp param else gadgetStp64ImmPostidxSp param]

def pairFastPath : List Gadget :=
  let isPre := insn.pairMode = 3
  let param := insn.pairParam
  [if insn.pairIsLoad then
      if isPre then gadgetLdp64ImmPreidxFast param else gadgetLdp64ImmPostidxFast param
    else if isPre then gadgetStp64ImmPreidxFast param else gadgetStp64ImmPostidxFast param]

def pairStepsPath : List Gadget :=
  let is64 := insn.pairOpc = 2
  let isPost := insn.pairMode = 1
  let pair := insn.pairRegs
  [if isPost then gadgetCalcAddrBase insn.pairBase
    else gadgetCalcAddrImm (insn.pairBase ||| insn.pairOffset <<< 8),
    if insn.pairIsLoad then if is64 then gadgetLdp64 pair else gadgetLdp32 pair
    else if is64 then gadgetStp64 pair else gadgetStp32 pair,
    if isPost then gadgetUpdateBase (insn.pairBase ||| insn.pairOffset <<< 8)
    else gadgetWritebackAddr insn.pairBase]

def genPair : LdstCode :=
  let isPre := insn.pairMode = 3
  let isPost := insn.pairMode = 1
  let isOffset := insn.pairMode = 2 ∨ insn.pairMode = 0
  let is64 := insn.pairOpc = 2
  if ¬ isPre ∧ ¬ isPost ∧ ¬ isOffset then .undefined []
  else if isOffset then .gadgets (pairImmPath insn (insn.rn ≠ 31 ∧ insn.rt ≠ 31 ∧ insn.rt2 ≠ 31))
  else if is64 ∧ insn.rn = 31 then .gadgets (pairSpPath insn)
  else if is64 ∧ insn.rn ≠ 31 ∧ insn.rt ≠ 31 ∧ insn.rt2 ≠ 31 ∧ insn.rn ≠ insn.rt ∧
      insn.rn ≠ insn.rt2 then .gadgets (pairFastPath insn)
  else .gadgets (pairStepsPath insn)

def simdPairAccess : Option Gadget :=
  let pair := insn.pairRegs
  if insn.pairIsLoad then
    match insn.pairOpc with
    | 0 => some (gadgetLdpSimdS pair)
    | 1 => some (gadgetLdpSimdD pair)
    | 2 => some (gadgetLdpSimdQ pair)
    | _ => none
  else
    match insn.pairOpc with
    | 0 => some (gadgetStpSimdS pair)
    | 1 => some (gadgetStpSimdD pair)
    | 2 => some (gadgetStpSimdQ pair)
    | _ => none

def genSimdPair : LdstCode :=
  let isPre := insn.pairMode = 3
  let isPost := insn.pairMode = 1
  let isOffset := insn.pairMode = 2 ∨ insn.pairMode = 0
  if ¬ isPre ∧ ¬ isPost ∧ ¬ isOffset then .undefined []
  else
    let calcAddr := if isPost then gadgetCalcAddrBase insn.pairBase
      else gadgetCalcAddrImm (insn.pairBase ||| insn.simdOffset <<< 8)
    match simdPairAccess insn with
    | none        => .undefined [calcAddr]
    | some access => .gadgets ([calcAddr, access] ++
        if isPre ∨ isPost then
          if isPost then [gadgetUpdateBase (insn.pairBase ||| insn.simdOffset <<< 8)]
          else [gadgetWritebackAddr insn.pairBase]
        else [])

/-- What `gen_ldst` makes of pairs. -/
def genLdstPair : LdstCode := if insn.isVector then genSimdPair insn else genPair insn

end Paths

end ShellBox
