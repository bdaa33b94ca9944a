import ShellBox.Asbestos.Atomic
import ShellBox.Logic.Loop

/-!
# The exclusive monitor

The monitor of a guest thread is an address and the values last loaded from it. A load-exclusive
arms it, and a store-exclusive at the remembered address compares the memory with the remembered
values and stores in the same step. The monitor is disarmed by every store-exclusive, by the
delivery of a signal and in a new thread.

What a thread has done that a monitor should follow is kept as a history, which the code does not
have: whether a store-exclusive has a matching load is a question about the history.
-/

namespace ShellBox

open Function

/-! ### Exclusive accesses -/

inductive ExclWidth where
  | single (size : AccessSize)
  | pair (size : AccessSize)
  deriving DecidableEq, Repr

namespace ExclWidth

def elem : ExclWidth → ℕ
  | single size | pair size => 2 ^ size.val

def bytes : ExclWidth → ℕ
  | single size => 2 ^ size.val
  | pair size   => 2 ^ size.val + 2 ^ size.val

/-- The memory at `p` holds these values. -/
def Holds (m : HostMem) (p : ℕ) (w : ExclWidth) (v₁ v₂ : ℕ) : Prop :=
  match w with
  | single size => loadLE m p (2 ^ size.val) = v₁
  | pair size   => loadLE m p (2 ^ size.val) = v₁ ∧ loadLE m (p + 2 ^ size.val) (2 ^ size.val) = v₂

end ExclWidth

structure Reservation where
  addr : BitVec 64
  width : ExclWidth
  val1 : BitVec 64
  val2 : BitVec 64

inductive ExclEvent where
  | loaded (r : Reservation)
  | stored
  | clrex
  /-- A handler was entered. -/
  | handler
  /-- A handler returned. -/
  | sigreturn

/-- The load-exclusive that a store-exclusive would match: the last event, if it is one. -/
def reserved : List ExclEvent → Option Reservation
  | .loaded r :: _ => some r
  | _              => none

/-! ### The gadgets -/

inductive InFlight where
  /-- `c_ldp32` or `c_ldp64` after the first load. -/
  | ldxp (rt rt2 : ℕ) (size : AccessSize) (addr val1 : BitVec 64) (ptr2 : ℕ)
  /-- `ATOMIC_RMW_CAS_LOOP` at the head of its loop. -/
  | rmw (rt : ℕ) (size : AccessSize) (op ptr old value : ℕ)

/-- The part of `struct cpu_state` that the gadgets below use. -/
structure Cpu where
  regs : ℕ → BitVec 64
  sp : BitVec 64
  exclAddr : BitVec 64
  exclVal : BitVec 64
  exclVal2 : BitVec 64
  inFlight : Option InFlight := none

/-- `UINT64_MAX`, the address of a disarmed monitor. -/
def noExcl : BitVec 64 := BitVec.allOnes 64

namespace Cpu

def reg (c : Cpu) (i : ℕ) : BitVec 64 := if i = 31 then 0 else c.regs i

def setReg (c : Cpu) (i : ℕ) (v : BitVec 64) : Cpu :=
  if i = 31 then c else { c with regs := update c.regs i v }

/-- A doubleword counted from `x0`. The stack pointer comes after the registers. -/
def slot (c : Cpu) (i : ℕ) : BitVec 64 := if i = 31 then c.sp else c.regs i

def setSlot (c : Cpu) (i : ℕ) (v : BitVec 64) : Cpu :=
  if i = 31 then { c with sp := v } else { c with regs := update c.regs i v }

def setPair (c : Cpu) (i : ℕ) (lo hi : BitVec 64) : Cpu :=
  if i = 31 then c else (c.setSlot i lo).setSlot (i + 1) hi

/-- `gadget_calc_addr_imm` at offset zero. -/
def calcAddr (c : Cpu) (rn : ℕ) : BitVec 64 := c.slot rn &&& 0xffffffffffff

structure SameMonitor (c c' : Cpu) : Prop where
  exclAddr : c'.exclAddr = c.exclAddr
  exclVal : c'.exclVal = c.exclVal
  exclVal2 : c'.exclVal2 = c.exclVal2

lemma SameMonitor.refl (c : Cpu) : c.SameMonitor c := ⟨rfl, rfl, rfl⟩

lemma SameMonitor.trans {c c' c'' : Cpu} (h : c.SameMonitor c') (h' : c'.SameMonitor c'') :
    c.SameMonitor c'' :=
  ⟨h'.1.trans h.1, h'.2.trans h.2, h'.3.trans h.3⟩

lemma sameMonitor_setReg (c : Cpu) (i : ℕ) (v : BitVec 64) : c.SameMonitor (c.setReg i v) := by
  unfold setReg
  split_ifs <;> exact ⟨rfl, rfl, rfl⟩

lemma sameMonitor_setSlot (c : Cpu) (i : ℕ) (v : BitVec 64) : c.SameMonitor (c.setSlot i v) := by
  unfold setSlot
  split_ifs <;> exact ⟨rfl, rfl, rfl⟩

lemma sameMonitor_setPair (c : Cpu) (i : ℕ) (lo hi : BitVec 64) :
    c.SameMonitor (c.setPair i lo hi) := by
  unfold setPair
  split_ifs
  · exact .refl c
  · exact (sameMonitor_setSlot _ _ _).trans (sameMonitor_setSlot _ _ _)

@[simp] lemma setReg_inFlight (c : Cpu) (i : ℕ) (v : BitVec 64) :
    (c.setReg i v).inFlight = c.inFlight := by
  unfold setReg
  split_ifs <;> rfl

@[simp] lemma setSlot_inFlight (c : Cpu) (i : ℕ) (v : BitVec 64) :
    (c.setSlot i v).inFlight = c.inFlight := by
  unfold setSlot
  split_ifs <;> rfl

@[simp] lemma setPair_inFlight (c : Cpu) (i : ℕ) (lo hi : BitVec 64) :
    (c.setPair i lo hi).inFlight = c.inFlight := by
  unfold setPair
  split_ifs <;> simp

lemma calcAddr_ne (c : Cpu) (rn : ℕ) : c.calcAddr rn ≠ noExcl := by
  intro h
  have hlt : (c.calcAddr rn).toNat ≤ 0xffffffffffff := by
    rw [calcAddr, BitVec.toNat_and]
    exact Nat.and_le_right
  rw [h] at hlt
  exact absurd hlt (by decide)

end Cpu

/-- What one step of a thread does. An instruction that raises `INT_GPF` has no report of its
own. -/
structure Effect where
  mem : HostMem
  cpu : Cpu
  event : Option ExclEvent := none
  /-- The outcome of a store-exclusive. -/
  report : Option CasStatus := none

variable (mmu : Mmu) (m : HostMem) (c : Cpu)

/-- `gadget_ldxr`. The translation is that of a load of four bytes, whatever the size; `value` is
what the buffer for loads across pages held. -/
def gadgetLdxr (rt : ℕ) (size : AccessSize) (addr : BitVec 64) (value : ℕ → UInt8) : Effect :=
  let done (v : BitVec 64) : Effect :=
    { mem := m
      cpu := { c with exclAddr := addr, exclVal := v }.setReg rt v
      event := some (.loaded ⟨addr, .single size, v, 0⟩) }
  if pageSize - 4 < pgoffset addr.toNat then
    match mmu.readCrossPage m addr.toNat 4 value with
    | none     => { mem := m, cpu := c }
    | some buf => done (.ofNat 64 (loadLE buf 0 (2 ^ size.val)))
  else match mmu.readPtr addr.toNat with
    | none     => { mem := m, cpu := c }
    | some ptr => done (.ofNat 64 (loadLE m ptr (2 ^ size.val)))

/-- The end of a store-exclusive: the monitor is disarmed and the outcome put into `Rs`, unless
the store raised `INT_GPF`. -/
def finishStore (rs : ℕ) (r : HostMem × CasStatus) : Effect :=
  let c' := { c with exclAddr := noExcl }
  { mem := r.1
    cpu := match r.2 with
      | .success  => c'.setReg rs 0
      | .failure  => c'.setReg rs 1
      | .segfault => c'
    event := some .stored
    report := some r.2 }

def gadgetStxr (rt rs : ℕ) (size : AccessSize) (addr : BitVec 64) : Effect :=
  if c.exclAddr ≠ addr then finishStore c rs (m, .failure)
  else finishStore c rs (cStxrCas mmu m addr.toNat c.exclVal (c.reg rt) size)

/-- `gadget_stxp_c`. -/
def gadgetStxp (rt rt2 rs : ℕ) (size : AccessSize) (addr : BitVec 64) : Effect :=
  if c.exclAddr ≠ addr then finishStore c rs (m, .failure)
  else finishStore c rs
    (cStxpCas mmu m addr.toNat c.exclVal c.exclVal2 (c.reg rt) (c.reg rt2) size)

/-- `gadget_ldxp_c` up to its first load: both pointers are taken before. -/
def gadgetLdxp (rt rt2 : ℕ) (size : AccessSize) (addr : BitVec 64) : Effect :=
  match mmu.readPtr addr.toNat, mmu.readPtr (addr.toNat + 2 ^ size.val) with
  | some ptr1, some ptr2 =>
    let val1 := BitVec.ofNat 64 (loadLE m ptr1 (2 ^ size.val))
    { mem := m, cpu := { c with inFlight := some (.ldxp rt rt2 size addr val1 ptr2) } }
  | _, _ => { mem := m, cpu := c }

/-- The second load of `gadget_ldxp_c`, which arms the monitor. -/
def finishLdxp (rt rt2 : ℕ) (size : AccessSize) (addr val1 : BitVec 64) (ptr2 : ℕ) : Effect :=
  let val2 := BitVec.ofNat 64 (loadLE m ptr2 (2 ^ size.val))
  { mem := m
    cpu := ({ c with exclAddr := addr, exclVal := val1, exclVal2 := val2,
                     inFlight := none }.setReg rt val1).setReg rt2 val2
    event := some (.loaded ⟨addr, .pair size, val1, val2⟩) }

/-- `gadget_atomic_cas`, with the `gadget_store_reg` after it. -/
def gadgetAtomicCas (rs rt : ℕ) (size : AccessSize) (addr : BitVec 64) : Effect :=
  let r := cAtomicCas mmu m addr.toNat (c.reg rs) (c.reg rt) size
  { mem := r.1, cpu := match r.2 with | none => c | some old => c.setReg rs old }

/-- `gadget_atomic_casp`. A pair that starts at the zero register is not read or written. -/
def gadgetAtomicCasp (rs rt : ℕ) (addr : BitVec 64) : Effect :=
  let hi (i : ℕ) : BitVec 64 := if i = 31 then 0 else c.slot (i + 1)
  let r := cAtomicCas128 mmu m addr.toNat (c.reg rs) (hi rs) (c.reg rt) (hi rt)
  { mem := r.1
    cpu := match r.2 with
      | none          => c
      | some (lo, hi) => c.setPair rs lo hi }

def storeLow (v : BitVec 64) (w : BitVec 32) : BitVec 64 := v.extractLsb' 32 32 ++ w

/-- `gadget_atomic_casp32`: two words as one doubleword. The old value goes into the low halves of
the pair, and the high halves stay. -/
def gadgetAtomicCasp32 (rs rt : ℕ) (addr : BitVec 64) : Effect :=
  let packed (i : ℕ) : BitVec 64 :=
    if i = 31 then 0 else .ofNat 64 (pairLE 4 (c.slot i).toNat (c.slot (i + 1)).toNat)
  let r := cAtomicCas mmu m addr.toNat (packed rs) (packed rt) .dword
  { mem := r.1
    cpu := match r.2 with
      | none     => c
      | some old =>
        c.setPair rs (storeLow (c.slot rs) (old.extractLsb' 0 32))
          (storeLow (c.slot (rs + 1)) (old.extractLsb' 32 32)) }

/-- `gadget_atomic_rmw`, with the `gadget_store_reg` after it. A maximum or minimum has only
loaded the old value after this step. -/
def gadgetAtomicRmw (rs rt : ℕ) (size : AccessSize) (op : ℕ) (addr : BitVec 64) : Effect :=
  match mmu.writePtr addr.toNat with
  | none     => { mem := m, cpu := c }
  | some ptr =>
    let old := loadLE m ptr (2 ^ size.val)
    let value := (c.reg rs).toNat
    if rmwLoops op then
      { mem := m, cpu := { c with inFlight := some (.rmw rt size op ptr old value) } }
    else
      { mem := storeLE m ptr (2 ^ size.val) (rmwValue size op old value)
        cpu := c.setReg rt (.ofNat 64 old) }

/-- One turn of `ATOMIC_RMW_CAS_LOOP`. The compare-and-swap is a weak one and may fail without a
reason. -/
def retryRmw (rt : ℕ) (size : AccessSize) (op ptr old value : ℕ) (spurious : Bool) : Effect :=
  let r := compareExchange m ptr (2 ^ size.val) old (rmwValue size op old value)
  if !spurious && r.2 then
    { mem := r.1, cpu := { c with inFlight := none }.setReg rt (.ofNat 64 old) }
  else
    { mem := m
      cpu := { c with
        inFlight := some (.rmw rt size op ptr (loadLE m ptr (2 ^ size.val)) value) } }

/-- The instructions of a guest thread, as `gen_ldst` and `gen_system` translate them, and the
interruptions of it. -/
inductive Instr where
  | ldxr (rt rn : ℕ) (size : AccessSize) (value : ℕ → UInt8)
  | stxr (rt rs rn : ℕ) (size : AccessSize)
  | ldxp (rt rt2 rn : ℕ) (size : AccessSize)
  | stxp (rt rt2 rs rn : ℕ) (size : AccessSize)
  | clrex
  | cas (rs rt rn : ℕ) (size : AccessSize)
  | casp (rs rt rn : ℕ)
  | casp32 (rs rt rn : ℕ)
  | rmw (rs rt rn : ℕ) (size : AccessSize) (op : ℕ)
  /-- The gadget under way makes its next access. -/
  | next (spurious : Bool)
  /-- A store of `n` bytes to one page. Stores of pairs and across pages are several of these, and
  so is the frame of a handler. -/
  | store (addr n value : ℕ)
  /-- An instruction on the registers. -/
  | other (regs : ℕ → BitVec 64) (sp : BitVec 64)
  /-- `receive_signal` enters a handler with these registers. -/
  | deliver (regs : ℕ → BitVec 64) (sp : BitVec 64)
  /-- `sys_rt_sigreturn`, with the registers of the frame. -/
  | sigreturn (regs : ℕ → BitVec 64) (sp : BitVec 64)

/-- One step of a thread. A gadget under way is finished before anything else, and nothing is
under way when none was begun. -/
def exec (i : Instr) : Effect :=
  match c.inFlight, i with
  | some (.ldxp rt rt2 size addr val1 ptr2), .next _ => finishLdxp m c rt rt2 size addr val1 ptr2
  | some (.rmw rt size op ptr old value), .next spurious =>
    retryRmw m c rt size op ptr old value spurious
  | some _, _ => { mem := m, cpu := c }
  | none, .ldxr rt rn size value => gadgetLdxr mmu m c rt size (c.calcAddr rn) value
  | none, .stxr rt rs rn size => gadgetStxr mmu m c rt rs size (c.calcAddr rn)
  | none, .ldxp rt rt2 rn size =>
    -- the other sizes are `INT_UNDEFINED`
    if size = .word ∨ size = .dword then gadgetLdxp mmu m c rt rt2 size (c.calcAddr rn)
    else { mem := m, cpu := c }
  | none, .stxp rt rt2 rs rn size =>
    if size = .word ∨ size = .dword then gadgetStxp mmu m c rt rt2 rs size (c.calcAddr rn)
    else { mem := m, cpu := c }
  -- generates nothing
  | none, .clrex => { mem := m, cpu := c, event := some .clrex }
  | none, .cas rs rt rn size => gadgetAtomicCas mmu m c rs rt size (c.calcAddr rn)
  | none, .casp rs rt rn => gadgetAtomicCasp mmu m c rs rt (c.calcAddr rn)
  | none, .casp32 rs rt rn => gadgetAtomicCasp32 mmu m c rs rt (c.calcAddr rn)
  | none, .rmw rs rt rn size op =>
    if op ≤ 8 then gadgetAtomicRmw mmu m c rs rt size op (c.calcAddr rn)
    else { mem := m, cpu := c }
  | none, .next _ => { mem := m, cpu := c }
  | none, .store addr n value =>
    match mmu.writePtr addr with
    | none     => { mem := m, cpu := c }
    | some ptr => { mem := storeLE m ptr n value, cpu := c }
  | none, .other regs sp => { mem := m, cpu := { c with regs, sp } }
  | none, .deliver regs sp =>
    { mem := m, cpu := { c with regs, sp, exclAddr := noExcl }, event := some .handler }
  | none, .sigreturn regs sp =>
    { mem := m, cpu := { c with regs, sp }, event := some .sigreturn }

end ShellBox
