import ShellBox.Asbestos.Exclusive
import ShellBox.Asbestos.GuestAccess
import ShellBox.Asbestos.Insn
import ShellBox.Asbestos.Registers

/-!
# Atomic instructions

An atomic instruction becomes a gadget that calls a helper, and the helper works on the host's
memory. Each access of a helper is one atomic operation of the host; between two of them the memory
is changed by other threads in any way. A run of the gadgets is therefore the list of accesses that
it makes, each with the memory that it finds and the memory that it leaves.
-/

namespace ShellBox

structure HostAccess where
  ptr : ℕ
  bytes : ℕ
  before : HostMem
  after : HostMem

/-! ### The helpers -/

/-- `ATOMIC_RMW_CAS_LOOP` after the first load. The compare-and-swap is a weak one and may fail
without a reason. -/
inductive RmwCasLoop (ptr n : ℕ) (opExpr : ℕ → ℕ) : ℕ → List HostAccess → ℕ → Prop
  | stored (m : HostMem) (old : ℕ) (h : loadLE m ptr n = old) :
      RmwCasLoop ptr n opExpr old [⟨ptr, n, m, storeLE m ptr n (opExpr old)⟩] old
  | failed (m : HostMem) (old : ℕ) {t : List HostAccess} {last : ℕ}
      (h : RmwCasLoop ptr n opExpr (loadLE m ptr n) t last) :
      RmwCasLoop ptr n opExpr old (⟨ptr, n, m, m⟩ :: t) last

/-- `c_atomic_rmw`; `none` is a result other than 0. -/
inductive CAtomicRmw (mmu : Mmu) (addr value : BitVec 64) (size : AccessSize) (op : ℕ) :
    List HostAccess → Option (BitVec 64) → Prop
  | segfault (h : mmu.writePtr addr.toNat = none) : CAtomicRmw mmu addr value size op [] none
  | unsupported (h : 8 < op) : CAtomicRmw mmu addr value size op [] none
  | once {ptr : ℕ} (hop : op ≤ 8) (h : mmu.writePtr addr.toNat = some ptr)
      (hloop : rmwLoops op = false) (m : HostMem) {old : ℕ}
      (hold : loadLE m ptr (2 ^ size.val) = old) :
      CAtomicRmw mmu addr value size op
        [⟨ptr, 2 ^ size.val, m,
          storeLE m ptr (2 ^ size.val) (rmwValue size op old value.toNat)⟩]
        (some (.ofNat 64 old))
  | loop {ptr : ℕ} (hop : op ≤ 8) (h : mmu.writePtr addr.toNat = some ptr)
      (hloop : rmwLoops op = true) (m : HostMem) {t : List HostAccess} {old : ℕ}
      (ht : RmwCasLoop ptr (2 ^ size.val) (fun old => rmwValue size op old value.toNat)
        (loadLE m ptr (2 ^ size.val)) t old) :
      CAtomicRmw mmu addr value size op (⟨ptr, 2 ^ size.val, m, m⟩ :: t) (some (.ofNat 64 old))

def RunOnce {α : Type} (mmu : Mmu) (addr : BitVec 64) (n : ℕ)
    (helper : HostMem → HostMem × Option α) (t : List HostAccess) (r : Option α) : Prop :=
  ∃ m, r = (helper m).2 ∧
    t = match (helper m).2, mmu.writePtr addr.toNat with
      | some _, some ptr => [⟨ptr, n, m, (helper m).1⟩]
      | _, _             => []

/-- `c_atomic_cas` -/
def CAtomicCas (mmu : Mmu) (addr expected desired : BitVec 64) (size : AccessSize) :
    List HostAccess → Option (BitVec 64) → Prop :=
  RunOnce mmu addr (2 ^ size.val) fun m => cAtomicCas mmu m addr.toNat expected desired size

/-- `c_atomic_cas128` -/
def CAtomicCas128 (mmu : Mmu) (addr expLo expHi desLo desHi : BitVec 64) :
    List HostAccess → Option (BitVec 64 × BitVec 64) → Prop :=
  RunOnce mmu addr 16 fun m => cAtomicCas128 mmu m addr.toNat expLo expHi desLo desHi

/-! ### The gadgets -/

/-- What the gadgets work on: the guest's registers, `_addr`, `_tmp`, `LOCAL_value_addr` and the
emulator's stack pointer. -/
structure AtomicState where
  cpu : JitCpu
  addr : BitVec 64
  tmp : BitVec 64
  valueAddr : BitVec 64
  sp : BitVec 64

/-- A gadget goes on to the next one, or leaves the block with `INT_GPF`. -/
inductive AtomicExit where
  | next (s : AtomicState)
  | fault (s : AtomicState)

def AtomicExit.after {α : Type} (ok : α → AtomicState) (failed : AtomicState) :
    Option α → AtomicExit
  | some v => .next (ok v)
  | none   => .fault failed

inductive AtomicGadget where
  | calcAddrImm (param : BitVec 64)
  | dmb
  | atomicRmw (param : BitVec 64)
  | atomicCas (param : BitVec 64)
  | atomicCasp (param : BitVec 64)
  | atomicCasp32 (param : BitVec 64)
  | storeReg (param : BitVec 64)
  deriving DecidableEq

namespace AtomicState

/-- `sub sp, sp, #16` -/
def push (s : AtomicState) : AtomicState := { s with sp := s.sp - 16 }

/-- `add sp, sp, #16` -/
def pop (s : AtomicState) : AtomicState := { s with sp := s.sp + 16 }

/-- A write fault at `_addr`. -/
def segfault (s : AtomicState) : AtomicState :=
  { s with cpu := { s.cpu with segfaultAddr := s.addr, segfaultWasWrite := true } }

def upper (s : AtomicState) (i : ℕ) : BitVec 64 := if i = 31 then 0 else s.cpu.slot (i + 1)

def packed (s : AtomicState) (i : ℕ) : BitVec 64 :=
  if i = 31 then 0 else (s.cpu.slot (i + 1)).extractLsb' 0 32 ++ (s.cpu.slot i).extractLsb' 0 32

def storePair (s : AtomicState) (i : ℕ) (lo hi : BitVec 64) : AtomicState :=
  if i = 31 then s else { s with cpu := (s.cpu.setSlot i lo).setSlot (i + 1) hi }

end AtomicState

def AtomicGadget.Run (mmu : Mmu) (s : AtomicState) (t : List HostAccess) (e : AtomicExit) :
    AtomicGadget → Prop
  | calcAddrImm w =>
    let addr := guestAddr (s.cpu.slot (w.extractLsb' 0 5).toNat + w.sshiftRight 8)
    t = [] ∧ e = .next { s with addr, valueAddr := addr }
  | dmb => t = [] ∧ e = .next s
  | atomicRmw w => ∃ r,
    CAtomicRmw mmu s.addr (s.cpu.reg (w.extractLsb' 0 5).toNat) (w.extractLsb' 8 2).toFin
      (w.extractLsb' 16 4).toNat t r ∧
    e = .after (fun old => { s.push.pop with tmp := old }) s.push.pop.segfault r
  | atomicCas w => ∃ r,
    CAtomicCas mmu s.addr (s.cpu.reg (w.extractLsb' 0 5).toNat)
      (s.cpu.reg (w.extractLsb' 8 5).toNat) (w.extractLsb' 16 2).toFin t r ∧
    e = .after (fun old => { s.push.pop with tmp := old }) s.push.pop.segfault r
  | atomicCasp w => ∃ r,
    let rs := (w.extractLsb' 0 5).toNat
    let rt := (w.extractLsb' 8 5).toNat
    CAtomicCas128 mmu s.addr (s.cpu.reg rs) (s.upper rs) (s.cpu.reg rt) (s.upper rt) t r ∧
    e = .after (fun old => s.push.pop.storePair rs old.1 old.2) s.push.pop.segfault r
  | atomicCasp32 w => ∃ r,
    let rs := (w.extractLsb' 0 5).toNat
    let rt := (w.extractLsb' 8 5).toNat
    CAtomicCas mmu s.addr (s.packed rs) (s.packed rt) .dword t r ∧
    -- words are stored into the doublewords of the registers; the exit for a fault is that of the
    -- other pair, which has its stack in order there
    e = .after (fun old => s.push.pop.storePair rs
        (storeLow (s.cpu.slot rs) (old.extractLsb' 0 32))
        (storeLow (s.cpu.slot (rs + 1)) (old.extractLsb' 32 32))) s.push.segfault r
  | storeReg w => t = [] ∧ e = .next { s with cpu := s.cpu.setReg (w.extractLsb' 0 5).toNat s.tmp }

def RunGadgets (mmu : Mmu) : List AtomicGadget → AtomicState → List HostAccess → AtomicExit → Prop
  | [], s, t, e => t = [] ∧ e = .next s
  | g :: gs, s, t, e => ∃ t₁ e₁, g.Run mmu s t₁ e₁ ∧
    match e₁ with
    | .next s' => ∃ t₂, t = t₁ ++ t₂ ∧ RunGadgets mmu gs s' t₂ e
    | .fault _ => t = t₁ ∧ e = e₁

/-! ### The translation -/

inductive AtomicCode where
  | gadgets (gs : List AtomicGadget)
  /-- `gen_interrupt(state, INT_UNDEFINED)` -/
  | undefined
  deriving DecidableEq

def barrier (b : BitVec 1) : List AtomicGadget := if b = 1 then [.dmb] else []

/-- The beginning of `gen_ldst`; `none` if the instruction is not an atomic one. -/
def genAtomic (insn : Insn) : Option AtomicCode :=
  let rs : BitVec 5 := insn.bits 16 5
  let rn : BitVec 5 := insn.bits 5 5
  let rt : BitVec 5 := insn.bits 0 5
  let calcAddr := AtomicGadget.calcAddrImm (packAt 0 rn ||| (0 : BitVec 64) <<< 8)
  if insn &&& 0x3f200c00 = 0x38200000 then
    let size : BitVec 2 := insn.bits 30 2
    let op : BitVec 4 := insn.bits 12 4
    if 8 < op.toNat then some .undefined
    else some (.gadgets ([calcAddr] ++ barrier (insn.bits 22 1)
      ++ [.atomicRmw (packAt 0 rs ||| packAt 8 size ||| packAt 16 op)] ++ barrier (insn.bits 23 1)
      ++ [.storeReg (packAt 0 rt)]))
  else if insn &&& 0xffa07c00 = 0x48207c00 then
    some (.gadgets ([calcAddr] ++ barrier (insn.bits 15 1)
      ++ [.atomicCasp (packAt 0 rs ||| packAt 8 rt)] ++ barrier (insn.bits 22 1)))
  else if insn &&& 0xffa07c00 = 0x08207c00 then
    some (.gadgets ([calcAddr] ++ barrier (insn.bits 15 1)
      ++ [.atomicCasp32 (packAt 0 rs ||| packAt 8 rt)] ++ barrier (insn.bits 22 1)))
  else if insn &&& 0x3fa07c00 = 0x08a07c00 then
    let size : BitVec 2 := insn.bits 30 2
    some (.gadgets ([calcAddr] ++ barrier (insn.bits 15 1)
      ++ [.atomicCas (packAt 0 rs ||| packAt 8 rt ||| packAt 16 size)] ++ barrier (insn.bits 22 1)
      ++ [.storeReg (packAt 0 rs)]))
  else none

/-! ### The architecture -/

inductive AtomicInsn where
  /-- `LDADD` and its like, and `SWP` -/
  | rmw (size : AccessSize) (op rs rn rt : ℕ)
  | cas (size : AccessSize) (rs rn rt : ℕ)
  /-- `CASP` of doublewords or of words -/
  | casp (wide : Bool) (rs rn rt : ℕ)
  deriving DecidableEq

def atomicInsn (insn : Insn) : Option AtomicInsn :=
  let op := (insn.bits 12 4).toNat
  if insn &&& 0x3f200c00 = 0x38200000 then
    if op ≤ 8 then some (.rmw (insn.bits 30 2).toFin op insn.rm insn.rn insn.rt) else none
  else if insn &&& 0xffa07c00 = 0x48207c00 then
    if 2 ∣ insn.rm ∧ 2 ∣ insn.rt then some (.casp true insn.rm insn.rn insn.rt) else none
  else if insn &&& 0xffa07c00 = 0x08207c00 then
    if 2 ∣ insn.rm ∧ 2 ∣ insn.rt then some (.casp false insn.rm insn.rn insn.rt) else none
  else if insn &&& 0x3fa07c00 = 0x08a07c00 then
    some (.cas (insn.bits 30 2).toFin insn.rm insn.rn insn.rt)
  else none

def atomicResult {w : ℕ} (op : ℕ) (old value : BitVec w) : BitVec w :=
  match op with
  | 0 => old + value
  | 1 => old &&& ~~~value
  | 2 => old ^^^ value
  | 3 => old ||| value
  | 4 => .ofInt w (max old.toInt value.toInt)
  | 5 => .ofInt w (min old.toInt value.toInt)
  | 6 => .ofNat w (max old.toNat value.toNat)
  | 7 => .ofNat w (min old.toNat value.toNat)
  | _ => value

namespace AtomicInsn

def rn : AtomicInsn → ℕ
  | rmw _ _ _ rn _ | cas _ _ rn _ | casp _ _ rn _ => rn

def bytes : AtomicInsn → ℕ
  | rmw size .. | cas size .. => 2 ^ size.val
  | casp wide ..              => if wide then 16 else 8

def stored (c : JitCpu) (old : ℕ) : AtomicInsn → ℕ
  | rmw size op rs _ _ =>
    (atomicResult (w := 8 * 2 ^ size.val) op (.ofNat _ old) (.ofNat _ (c.reg rs).toNat)).toNat
  | cas size rs _ rt =>
    if old = (c.reg rs).toNat % 256 ^ 2 ^ size.val then (c.reg rt).toNat else old
  | casp wide rs _ rt =>
    let e := if wide then 8 else 4
    if old = pairLE e (c.reg rs).toNat (c.reg (rs + 1)).toNat then
      pairLE e (c.reg rt).toNat (c.reg (rt + 1)).toNat
    else old

def result (c : JitCpu) (old : ℕ) : AtomicInsn → JitCpu
  | rmw _ _ _ _ rt => c.setReg rt (.ofNat 64 old)
  | cas _ rs _ _   => c.setReg rs (.ofNat 64 old)
  | casp wide rs _ _ =>
    let e := if wide then 8 else 4
    (c.setReg rs (.ofNat 64 (old % 256 ^ e))).setReg (rs + 1) (.ofNat 64 (old / 256 ^ e))

end AtomicInsn

end ShellBox
