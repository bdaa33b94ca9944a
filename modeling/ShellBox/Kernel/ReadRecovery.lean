import ShellBox.Asbestos.Dispatch
import ShellBox.Asbestos.Insn

/-!
# Recovery from read faults

A gadget that faults leaves the program counter at the start of its block. When a read has faulted,
`handle_interrupt` scans the words from there for the first one that looks like a load, puts zero
into its registers and goes on after it, instead of delivering the signal.

What a load really changes is the subject of the claim of the handler, and is defined apart from the
scan. Loads of other classes than those below are a parameter: the scan does not look for them.
-/

namespace ShellBox

open Function

/-! ### The scan -/

/-- `user_get`, of one byte. -/
abbrev UserBytes := BitVec 64 → Option (BitVec 8)

def readWord (mem : UserBytes) (pc : BitVec 64) : Option Insn := do
  let b0 ← mem pc
  let b1 ← mem (pc + 1)
  let b2 ← mem (pc + 2)
  let b3 ← mem (pc + 3)
  return b3 ++ b2 ++ b1 ++ b0

namespace Insn

variable (insn : Insn)

def stopsScan : Bool :=
  insn &&& 0xfc000000 = 0x14000000 || insn &&& 0xfc000000 = 0x94000000 ||
  insn &&& 0xfffffc1f = 0xd61f0000 || insn &&& 0xfffffc1f = 0xd63f0000 ||
  insn = 0xd65f03c0 || insn &&& 0xff000010 = 0x54000000 ||
  insn &&& 0x7e000000 = 0x34000000 || insn &&& 0x7e000000 = 0x36000000

def isIndexed : Bool :=
  insn &&& 0x3b200c00 = 0x38000400 || insn &&& 0x3b200c00 = 0x38000c00 ||
  insn &&& 0x3b200c00 = 0x38000000

def hasWriteback : Bool := insn.isIndexed && (insn.mode = 1 || insn.mode = 3)

def isLdp : Bool := insn &&& 0x7fc00000 = 0xa9400000 || insn &&& 0x7fc00000 = 0x29400000

def isLoad : Bool :=
  let isLoad := insn.isIndexed && insn.opc ≠ 0
  let isLoad := if insn &&& 0x3b400000 = 0x39400000 then true else isLoad
  let isLoad := if insn &&& 0x3b200c00 = 0x38200800 then decide (insn.opc ≠ 0) else isLoad
  if insn.isLdp then true else isLoad

def Found : Prop := insn.isLoad ∧ insn.rt < 31

instance : Decidable insn.Found := inferInstanceAs (Decidable (_ ∧ _))

end Insn

/-- The loop over `scan`, with the rounds that are left. -/
def scanForLoad (mem : UserBytes) : ℕ → BitVec 64 → Option (BitVec 64 × Insn)
  | 0, _ => none
  | n + 1, pc =>
    match readWord mem pc with
    | none => none
    | some insn =>
      if insn.stopsScan then none
      else if insn.Found then some (pc, insn)
      else scanForLoad mem n (pc + 4)

namespace JitCpu

/-- `cpu->regs[i] = 0` -/
def zeroReg (cpu : JitCpu) (i : ℕ) : JitCpu := { cpu with regs := update cpu.regs i 0 }

def skipLoad (cpu : JitCpu) (insnPc : BitVec 64) (insn : Insn) : JitCpu :=
  let cpu := cpu.zeroReg insn.rt
  let cpu := if insn.isLdp ∧ insn.rt2 < 31 then cpu.zeroReg insn.rt2 else cpu
  let cpu :=
    if insn.hasWriteback ∧ insn.rn < 31 then
      { cpu with
        regs := update cpu.regs insn.rn ((cpu.regs insn.rn + insn.imm9) &&& 0xffffffffffff) }
    else cpu
  { cpu with pc := insnPc + 4 }

end JitCpu

structure ReadRecovery where
  readRecoveryCount : ℕ
  lastRecoveryAddr : BitVec 64

/-- The recovery of `handle_interrupt`; `none` if it goes on to deliver the signal. -/
def readRecovery (mem : UserBytes) (r : ReadRecovery) (cpu : JitCpu) :
    ReadRecovery × Option JitCpu :=
  if cpu.segfaultWasWrite then (r, none)
  else
    let r := if cpu.segfaultAddr ≠ r.lastRecoveryAddr then ⟨0, cpu.segfaultAddr⟩ else r
    if r.readRecoveryCount < 8 then
      ({ r with readRecoveryCount := r.readRecoveryCount + 1 },
        (scanForLoad mem 8 cpu.pc).map fun found => cpu.skipLoad found.1 found.2)
    else (r, none)

/-! ### Loads -/

/-- What a load changes: general registers and vector registers, and the base by an offset. -/
structure LoadEffect where
  gprs : List ℕ
  vregs : List ℕ
  base : Option (ℕ × BitVec 64)
  deriving DecidableEq

namespace LoadEffect

def shift (e : LoadEffect) (i : ℕ) : BitVec 64 :=
  match e.base with
  | some (rn, offset) => if rn = i then offset else 0
  | none => 0

def zeroed (e : LoadEffect) (cpu : JitCpu) (next : BitVec 64) : JitCpu :=
  { cpu with
    regs := fun i => if i ∈ e.gprs then 0 else if i < 31 then cpu.regs i + e.shift i else cpu.regs i
    sp := cpu.sp + e.shift 31
    fp := fun i => if i ∈ e.vregs then 0 else cpu.fp i
    pc := next }

end LoadEffect

namespace Insn

/-- A load of one register, with its write-back. A prefetch loads nothing; a base that is loaded and
written back is unpredictable. -/
def loadOne (insn : Insn) (base : Option (ℕ × BitVec 64)) : Option LoadEffect :=
  if insn.isVector then
    if insn.opc = 1 ∨ (insn.opc = 3 ∧ insn.size = 0) then some ⟨[], [insn.rt], base⟩ else none
  else if insn.opc = 0 ∨ (insn.opc = 2 ∧ insn.size = 3) ∨ (insn.opc = 3 ∧ 2 ≤ insn.size) then none
  else if base.isSome ∧ insn.rt = insn.rn ∧ insn.rn ≠ 31 then none
  else some ⟨[insn.rt].filter (· ≠ 31), [], base⟩

def loadPair (insn : Insn) (bytes : BitVec 64) : LoadEffect :=
  let base := if insn.bits 23 2 = 1 ∨ insn.bits 23 2 = 3 then some (insn.rn, insn.imm7 * bytes)
    else none
  if insn.isVector then ⟨[], [insn.rt, insn.rt2], base⟩
  else ⟨[insn.rt, insn.rt2].filter (· ≠ 31), [], base⟩

def loadEffect (other : Insn → Option LoadEffect) (insn : Insn) : Option LoadEffect :=
  if insn &&& 0x3b000000 = 0x39000000 then insn.loadOne none
  else if insn &&& 0x3b200000 = 0x38000000 then
    insn.loadOne (if insn.mode = 1 ∨ insn.mode = 3 then some (insn.rn, insn.imm9) else none)
  else if insn &&& 0x3b200c00 = 0x38200800 then insn.loadOne none
  else if insn &&& 0x3a000000 = 0x28000000 then
    if insn.bits 22 1 = 0 ∨ insn.size = 3 then none
    else if insn.isVector then
      some (insn.loadPair (if insn.size = 0 then 4 else if insn.size = 1 then 8 else 16))
    else some (insn.loadPair (if insn.size = 2 then 8 else 4))
  else if insn &&& 0x3b000000 = 0x18000000 then
    if insn.size = 3 then none
    else if insn.isVector then some ⟨[], [insn.rt], none⟩
    else some ⟨[insn.rt].filter (· ≠ 31), [], none⟩
  else other insn

end Insn

/-! ### Blocks -/

/-- The addresses of the instructions of a block, in the order in which they run, up to one of them.
Some instructions end a block; an unconditional branch within the page is followed at most three
times. -/
inductive BlockPath (endsBlock : Insn → Bool) (mem : UserBytes) (start : BitVec 64) :
    ℕ → BitVec 64 → List (BitVec 64) → BitVec 64 → Prop
  | here (depth : ℕ) (ip : BitVec 64) : BlockPath endsBlock mem start depth ip [] ip
  | next {depth ip insn path last} (hread : readWord mem ip = some insn)
      (hends : endsBlock insn = false) (h : BlockPath endsBlock mem start depth (ip + 4) path last) :
      BlockPath endsBlock mem start depth ip (ip :: path) last
  | inline {depth ip insn path last} (hread : readWord mem ip = some insn)
      (hbranch : insn &&& 0xfc000000 = 0x14000000)
      (hpage : (ip + (insn.bits 0 26).signExtend 64 * 4) >>> 12 = start >>> 12)
      (hforward : ip < ip + (insn.bits 0 26).signExtend 64 * 4) (hdepth : depth < 3)
      (h : BlockPath endsBlock mem start (depth + 1) (ip + (insn.bits 0 26).signExtend 64 * 4)
        path last) :
      BlockPath endsBlock mem start depth ip (ip :: path) last

/-- A load that has faulted in a block: `ran` are the instructions before it, which have all run
once, and `cpu` is what they and the fault have left. -/
structure LoadFault where
  endsBlock : Insn → Bool
  other : Insn → Option LoadEffect
  mem : UserBytes
  ran : List (BitVec 64)
  loadPc : BitVec 64
  insn : Insn
  effect : LoadEffect
  cpu : JitCpu
  path : BlockPath endsBlock mem cpu.pc 0 cpu.pc ran loadPc
  read : readWord mem loadPc = some insn
  load : insn.loadEffect other = some effect
  isRead : cpu.segfaultWasWrite = false

/-! ### What the scan finds -/

variable {mem : UserBytes} {pc a : BitVec 64} {insn : Insn} {n : ℕ}

/-- The word `i` from `pc` is the first that is found, and the scan reaches it. -/
structure FirstFound (mem : UserBytes) (pc : BitVec 64) (i : ℕ) (insn : Insn) : Prop where
  passed : ∀ j < i, ∃ w, readWord mem (pc + .ofNat 64 (4 * j)) = some w ∧ w.stopsScan = false ∧
    ¬ w.Found
  read : readWord mem (pc + .ofNat 64 (4 * i)) = some insn
  goesOn : insn.stopsScan = false
  found : insn.Found

lemma add_ofNat_succ (pc : BitVec 64) (i : ℕ) :
    pc + .ofNat 64 (4 * (i + 1)) = pc + 4 + .ofNat 64 (4 * i) := by
  rw [Nat.mul_succ, Nat.add_comm, BitVec.ofNat_add, ← BitVec.add_assoc]
  rfl

lemma firstFound_zero : FirstFound mem pc 0 insn ↔
    readWord mem pc = some insn ∧ insn.stopsScan = false ∧ insn.Found := by
  have hpc : pc + .ofNat 64 (4 * 0) = pc := BitVec.add_zero pc
  constructor
  · intro h
    exact ⟨hpc ▸ h.read, h.goesOn, h.found⟩
  · rintro ⟨hread, hgoes, hfound⟩
    exact ⟨fun j hj => absurd hj (Nat.not_lt_zero j), hpc.symm ▸ hread, hgoes, hfound⟩

lemma firstFound_succ {i : ℕ} : FirstFound mem pc (i + 1) insn ↔
    (∃ w, readWord mem pc = some w ∧ w.stopsScan = false ∧ ¬ w.Found) ∧
      FirstFound mem (pc + 4) i insn := by
  have hpc : pc + .ofNat 64 (4 * 0) = pc := BitVec.add_zero pc
  constructor
  · intro h
    refine ⟨hpc ▸ h.passed 0 (Nat.succ_pos i), fun j hj => ?_, ?_, h.goesOn, h.found⟩
    · rw [← add_ofNat_succ]
      exact h.passed (j + 1) (Nat.succ_lt_succ hj)
    · rw [← add_ofNat_succ]
      exact h.read
  · rintro ⟨h0, h⟩
    refine ⟨fun j hj => ?_, ?_, h.goesOn, h.found⟩
    · cases j with
      | zero => exact hpc.symm ▸ h0
      | succ j =>
        rw [add_ofNat_succ]
        exact h.passed j (Nat.lt_of_succ_lt_succ hj)
    · rw [add_ofNat_succ]
      exact h.read

lemma scanForLoad_eq_some : scanForLoad mem n pc = some (a, insn) ↔
    ∃ i < n, a = pc + .ofNat 64 (4 * i) ∧ FirstFound mem pc i insn := by
  induction n generalizing pc with
  | zero =>
    refine iff_of_false (fun h => by cases h) ?_
    rintro ⟨i, hi, -⟩
    exact Nat.not_lt_zero i hi
  | succ n ih =>
    have hzero : pc + .ofNat 64 (4 * 0) = pc := BitVec.add_zero pc
    have hsplit : (∃ i < n + 1, a = pc + .ofNat 64 (4 * i) ∧ FirstFound mem pc i insn) ↔
        (a = pc ∧ FirstFound mem pc 0 insn) ∨
          ∃ i < n, a = pc + 4 + .ofNat 64 (4 * i) ∧ FirstFound mem pc (i + 1) insn := by
      simp only [Nat.exists_lt_succ_left, hzero, add_ofNat_succ]
    simp only [hsplit, firstFound_zero, firstFound_succ]
    rw [scanForLoad]
    cases hread : readWord mem pc with
    | none =>
      refine iff_of_false (fun h => by cases h) ?_
      rintro (⟨-, h, -⟩ | ⟨i, -, -, ⟨w, h, -⟩, -⟩) <;> cases h
    | some w =>
      by_cases hstop : w.stopsScan = true
      · refine iff_of_false (fun h => by cases (if_pos hstop).symm.trans h) ?_
        rintro (⟨-, h, hgoes, -⟩ | ⟨i, -, -, ⟨w', h, hgoes, -⟩, -⟩) <;>
        · cases h
          exact Bool.false_ne_true (hgoes.symm.trans hstop)
      · refine (iff_of_eq (congrArg (· = some (a, insn)) (if_neg hstop))).trans ?_
        by_cases hfound : w.Found
        · rw [if_pos hfound, Option.some.injEq, Prod.mk.injEq]
          constructor
          · rintro ⟨rfl, rfl⟩
            exact Or.inl ⟨rfl, rfl, Bool.not_eq_true _ ▸ hstop, hfound⟩
          · rintro (⟨rfl, h, -⟩ | ⟨i, -, -, ⟨w', h, -, hno⟩, -⟩)
            · cases h
              exact ⟨rfl, rfl⟩
            · cases h
              exact absurd hfound hno
        · rw [if_neg hfound, ih]
          constructor
          · rintro ⟨i, hi, ha, h⟩
            exact Or.inr ⟨i, hi, ha, ⟨w, rfl, Bool.not_eq_true _ ▸ hstop, hfound⟩, h⟩
          · rintro (⟨-, h, -, hf⟩ | ⟨i, hi, ha, -, h⟩)
            · cases h
              exact absurd hf hfound
            · exact ⟨i, hi, ha, h⟩

/-! ### What is done for it -/

namespace Insn

def base (insn : Insn) : Option (ℕ × BitVec 64) :=
  if insn.hasWriteback then some (insn.rn, insn.imm9) else none

lemma loadOne_eq_some {b : Option (ℕ × BitVec 64)} {e : LoadEffect} (h : insn.loadOne b = some e)
    (hrt : insn.rt < 31) :
    if insn.isVector then e = ⟨[], [insn.rt], b⟩
    else e = ⟨[insn.rt], [], b⟩ ∧ (b.isSome → insn.rt = insn.rn → insn.rn = 31) := by
  rw [loadOne] at h
  split_ifs at h with hv ho hno hup <;> cases h
  · rw [if_pos hv]
  · rw [if_neg hv]
    have hne : insn.rt ≠ 31 := hrt.ne
    refine ⟨by simp [hne], fun hb heq => ?_⟩
    by_contra hrn
    exact hup ⟨hb, heq, hrn⟩

lemma isIndexed_cases (h : insn.isIndexed = true) : insn &&& 0x3b200c00 = 0x38000400 ∨
    insn &&& 0x3b200c00 = 0x38000c00 ∨ insn &&& 0x3b200c00 = 0x38000000 := by
  simpa only [isIndexed, Bool.or_eq_true, decide_eq_true_eq, or_assoc] using h

lemma not_isIndexed {m v : Insn} (h : insn &&& m = v)
    (hv : v &&& 0x3b200c00 ≠ 0x38000400 &&& m ∧ v &&& 0x3b200c00 ≠ 0x38000c00 &&& m ∧
      v &&& 0x3b200c00 ≠ 0x38000000 &&& m) : insn.isIndexed = false := by
  rw [← Bool.not_eq_true]
  intro hi
  rcases isIndexed_cases hi with hi | hi | hi
  · exact and_mask_ne h hv.1 hi
  · exact and_mask_ne h hv.2.1 hi
  · exact and_mask_ne h hv.2.2 hi

lemma base_of_not_isIndexed (h : insn.isIndexed = false) : insn.base = none := by
  rw [base, hasWriteback, h]
  rfl

lemma isLdp_mask (h : insn.isLdp = true) : insn &&& 0x7fc00000 = 0x29400000 := by
  simp only [isLdp, Bool.or_eq_true, decide_eq_true_eq] at h
  rcases h with h | h
  · exact absurd (and_mask_idem h) (by decide)
  · exact h

lemma effect_of_found {other : Insn → Option LoadEffect} {e : LoadEffect} (h : insn.Found)
    (he : insn.loadEffect other = some e) :
    (insn.isLdp = true ∧ insn.hasWriteback = false ∧
      e = ⟨[insn.rt, insn.rt2].filter (· ≠ 31), [], none⟩) ∨
    (insn.isLdp = false ∧
      if insn.isVector then e = ⟨[], [insn.rt], insn.base⟩
      else e = ⟨[insn.rt], [], insn.base⟩ ∧
        (insn.base.isSome → insn.rt = insn.rn → insn.rn = 31)) := by
  obtain ⟨hload, hrt⟩ := h
  by_cases hldp : insn.isLdp = true
  · have hm := isLdp_mask hldp
    have hnv : insn.isVector = false := by
      rw [isVector, bits_of_mask hm (by decide)]
      rfl
    have hl : insn.bits 22 1 = 1 := bits_of_mask hm (by decide)
    have hmode : insn.bits 23 2 = 2 := bits_of_mask hm (by decide)
    have hidx := not_isIndexed hm (by decide)
    refine Or.inl ⟨hldp, by rw [hasWriteback, hidx]; rfl, ?_⟩
    rw [loadEffect, if_neg (and_mask_ne hm (by decide)), if_neg (and_mask_ne hm (by decide)),
      if_neg (and_mask_ne hm (by decide)), if_pos (and_mask_of_subset hm (by decide) (by decide)),
      hl, hnv] at he
    have hpair : ∀ bytes, insn.loadPair bytes =
        ⟨[insn.rt, insn.rt2].filter (· ≠ 31), [], none⟩ := by
      intro bytes
      rw [loadPair, hmode, hnv]
      rfl
    rw [if_neg Bool.false_ne_true, hpair] at he
    split_ifs at he
    exact (Option.some.inj he).symm
  · refine Or.inr ⟨Bool.not_eq_true _ ▸ hldp, ?_⟩
    rw [isLoad, if_neg hldp] at hload
    by_cases hreg : insn &&& 0x3b200c00 = 0x38200800
    · rw [loadEffect, if_neg (and_mask_ne hreg (by decide)), if_neg (and_mask_ne hreg (by decide)),
        if_pos hreg] at he
      rw [base_of_not_isIndexed (not_isIndexed hreg (by decide))]
      exact loadOne_eq_some he hrt
    rw [if_neg hreg] at hload
    by_cases hun : insn &&& 0x3b400000 = 0x39400000
    · rw [loadEffect, if_pos (and_mask_of_subset hun (by decide) (by decide))] at he
      rw [base_of_not_isIndexed (not_isIndexed hun (by decide))]
      exact loadOne_eq_some he hrt
    rw [if_neg hun, Bool.and_eq_true] at hload
    have hbase : insn.base = if insn.mode = 1 ∨ insn.mode = 3 then some (insn.rn, insn.imm9)
        else none := by
      rw [base, hasWriteback, hload.1]
      simp
    rw [hbase]
    refine loadOne_eq_some ?_ hrt
    rcases isIndexed_cases hload.1 with hm | hm | hm
    all_goals
      rwa [loadEffect, if_neg (and_mask_ne hm (by decide)),
        if_pos (and_mask_of_subset hm (by decide) (by decide))] at he

end Insn

structure Insn.ZeroRight (insn : Insn) (cpu : JitCpu) : Prop where
  vector : insn.isVector = true → cpu.fp insn.rt = 0
  general : insn.isVector = true → (insn.hasWriteback = true → insn.rn ≠ insn.rt) →
    cpu.regs insn.rt = 0
  stack : insn.hasWriteback = true → insn.rn = 31 → insn.imm9 = 0
  base : insn.hasWriteback = true → insn.rn ≠ 31 →
    (update cpu.regs insn.rt 0 insn.rn + insn.imm9) &&& 0xffffffffffff =
      cpu.regs insn.rn + insn.imm9

namespace LoadEffect

variable {e : LoadEffect}

lemma shift_none (h : e.base = none) (i : ℕ) : e.shift i = 0 := by
  rw [shift, h]

lemma shift_some {rn : ℕ} {offset : BitVec 64} (h : e.base = some (rn, offset)) (i : ℕ) :
    e.shift i = if rn = i then offset else 0 := by
  rw [shift, h]

lemma zeroed_regs_of_shift {cpu : JitCpu} {next : BitVec 64} {i : ℕ} (hg : i ∉ e.gprs)
    (hs : e.shift i = 0) : (e.zeroed cpu next).regs i = cpu.regs i := by
  show (if i ∈ e.gprs then 0 else if i < 31 then cpu.regs i + e.shift i else cpu.regs i) = _
  rw [if_neg hg, hs, add_zero, ite_self]

lemma zeroed_regs_of_mem {cpu : JitCpu} {next : BitVec 64} {i : ℕ} (hg : i ∈ e.gprs) :
    (e.zeroed cpu next).regs i = 0 := if_pos hg

lemma zeroed_regs_base {cpu : JitCpu} {next : BitVec 64} {i : ℕ} (hg : i ∉ e.gprs)
    (hi : i < 31) : (e.zeroed cpu next).regs i = cpu.regs i + e.shift i := by
  show (if i ∈ e.gprs then 0 else if i < 31 then cpu.regs i + e.shift i else cpu.regs i) = _
  rw [if_neg hg, if_pos hi]

end LoadEffect

namespace JitCpu

variable {cpu : JitCpu} {next : BitVec 64}

def zeroedRegs (cpu : JitCpu) (insn : Insn) : ℕ → BitVec 64 :=
  if insn.isLdp ∧ insn.rt2 < 31 then update (update cpu.regs insn.rt 0) insn.rt2 0
  else update cpu.regs insn.rt 0

lemma skipLoad_eq (cpu : JitCpu) (insn : Insn) : cpu.skipLoad pc insn =
    { cpu with
      regs := if insn.hasWriteback ∧ insn.rn < 31 then
          update (cpu.zeroedRegs insn) insn.rn
            ((cpu.zeroedRegs insn insn.rn + insn.imm9) &&& 0xffffffffffff)
        else cpu.zeroedRegs insn
      pc := pc + 4 } := by
  simp only [skipLoad, zeroReg, zeroedRegs]
  split_ifs <;> rfl

lemma skipLoad_eq_zeroed {e : LoadEffect} : cpu.skipLoad pc insn = e.zeroed cpu next ↔
    ((∀ i, (cpu.skipLoad pc insn).regs i = (e.zeroed cpu next).regs i) ∧
      e.shift 31 = 0 ∧ ∀ i ∈ e.vregs, cpu.fp i = 0) ∧ pc + 4 = next := by
  constructor
  · intro h
    refine ⟨⟨fun i => congrFun (congrArg regs h) i, ?_, fun i hi => ?_⟩, ?_⟩
    · rw [skipLoad_eq] at h
      have hsp : cpu.sp = cpu.sp + e.shift 31 := congrArg sp h
      exact left_eq_add.mp hsp
    · rw [skipLoad_eq] at h
      have hfp : cpu.fp i = if i ∈ e.vregs then 0 else cpu.fp i := congrFun (congrArg fp h) i
      rwa [if_pos hi] at hfp
    · rw [skipLoad_eq] at h
      exact congrArg JitCpu.pc h
  · rintro ⟨⟨hregs, hsp, hfp⟩, hpc⟩
    have hfp' : cpu.fp = fun i => if i ∈ e.vregs then 0 else cpu.fp i := by
      funext i
      split_ifs with hi
      · exact hfp i hi
      · rfl
    rw [skipLoad_eq] at hregs ⊢
    rw [LoadEffect.zeroed, hsp, add_zero, ← hfp', ← hpc]
    exact congrArg (fun regs => ({ cpu with regs := regs, pc := pc + 4 } : JitCpu)) (funext hregs)

lemma zeroedRegs_of_not_ldp (h : insn.isLdp = false) :
    cpu.zeroedRegs insn = update cpu.regs insn.rt 0 := by
  rw [zeroedRegs, h]
  exact if_neg fun hn => Bool.false_ne_true hn.1

lemma skipLoad_pair {e : LoadEffect} (hldp : insn.isLdp = true) (hwb : insn.hasWriteback = false)
    (hrt : insn.rt < 31) (he : e = ⟨[insn.rt, insn.rt2].filter (· ≠ 31), [], none⟩) (i : ℕ) :
    (cpu.skipLoad pc insn).regs i = (e.zeroed cpu next).regs i := by
  have hregs : (cpu.skipLoad pc insn).regs = cpu.zeroedRegs insn := by
    rw [skipLoad_eq]
    exact if_neg fun h => Bool.false_ne_true (hwb.symm.trans h.1)
  have hmem : i ∈ e.gprs ↔ (i = insn.rt ∨ i = insn.rt2) ∧ i ≠ 31 := by
    rw [he]
    simp
  rw [hregs, zeroedRegs]
  by_cases hi : i ∈ e.gprs
  · rw [LoadEffect.zeroed_regs_of_mem hi]
    obtain ⟨hi | hi, hne⟩ := hmem.mp hi
    · rw [hi]
      split_ifs
      · by_cases heq : insn.rt = insn.rt2
        · rw [heq, update_self]
        · rw [update_of_ne heq, update_self]
      · rw [update_self]
    · have hrt2 : insn.rt2 < 31 := Nat.lt_of_le_of_ne (Nat.le_of_lt_succ Insn.rt2_lt) (hi ▸ hne)
      rw [if_pos ⟨hldp, hrt2⟩, hi, update_self]
  · rw [LoadEffect.zeroed_regs_of_shift hi (LoadEffect.shift_none (by rw [he]) i)]
    have hne : i ≠ insn.rt := fun heq => hi (hmem.mpr ⟨Or.inl heq, heq ▸ hrt.ne⟩)
    split_ifs with hrt2
    · have hne2 : i ≠ insn.rt2 := fun heq => hi (hmem.mpr ⟨Or.inr heq, heq ▸ hrt2.2.ne⟩)
      rw [update_of_ne hne2, update_of_ne hne]
    · exact update_of_ne hne _ _

lemma skipLoad_one {e : LoadEffect} (hldp : insn.isLdp = false) (hbase : e.base = insn.base)
    (hrt : insn.rt < 31) (hgprs : ∀ i ∈ e.gprs, i = insn.rt)
    (hrn : insn.hasWriteback = true → insn.rn ≠ 31 → insn.rn ∉ e.gprs) :
    ((∀ i, (cpu.skipLoad pc insn).regs i = (e.zeroed cpu next).regs i) ∧ e.shift 31 = 0) ↔
      (∀ i, i ∉ e.gprs → (insn.hasWriteback = true → insn.rn ≠ i) →
        update cpu.regs insn.rt 0 i = cpu.regs i) ∧
      (insn.hasWriteback = true → insn.rn = 31 → insn.imm9 = 0) ∧
      (insn.hasWriteback = true → insn.rn ≠ 31 →
        (update cpu.regs insn.rt 0 insn.rn + insn.imm9) &&& 0xffffffffffff =
          cpu.regs insn.rn + insn.imm9) := by
  by_cases hwb : insn.hasWriteback = true
  · have hb : e.base = some (insn.rn, insn.imm9) := by rw [hbase, Insn.base, if_pos hwb]
    have hshift := LoadEffect.shift_some hb
    -- A register that is not the base.
    have hother : ∀ i, insn.rn ≠ i → (update cpu.regs insn.rt 0 i = (e.zeroed cpu next).regs i ↔
        (i ∉ e.gprs → update cpu.regs insn.rt 0 i = cpu.regs i)) := by
      intro i hne
      by_cases hi : i ∈ e.gprs
      · rw [LoadEffect.zeroed_regs_of_mem hi, hgprs i hi, update_self]
        exact iff_of_true rfl fun h => absurd (hgprs i hi ▸ hi) h
      · rw [LoadEffect.zeroed_regs_of_shift hi ((hshift i).trans (if_neg hne))]
        exact ⟨fun h _ => h, fun h => h hi⟩
    simp only [hwb, forall_const, hshift]
    by_cases hsp : insn.rn = 31
    · have hskip : (cpu.skipLoad pc insn).regs = update cpu.regs insn.rt 0 := by
        rw [skipLoad_eq, ← zeroedRegs_of_not_ldp hldp]
        exact if_neg fun h => h.2.ne hsp
      simp only [hskip, hsp, if_true, ne_eq, not_true_eq_false, false_implies, and_true,
        forall_const]
      refine and_congr_left fun _ => forall_congr' fun i => ?_
      by_cases hi : i = 31
      · have hup : update cpu.regs insn.rt 0 i = cpu.regs i :=
          update_of_ne (fun h => hrt.ne (h.symm.trans hi)) _ _
        have hz : (e.zeroed cpu next).regs i = cpu.regs i := by
          have hg : i ∉ e.gprs := fun h => hrt.ne ((hgprs i h).symm.trans hi)
          show (if i ∈ e.gprs then 0 else if i < 31 then _ else cpu.regs i) = _
          rw [if_neg hg, if_neg (Nat.not_lt.mpr hi.ge)]
        exact iff_of_true (hup.trans hz.symm) fun _ h => absurd hi.symm h
      · rw [hother i fun h => hi (h.symm.trans hsp)]
        exact ⟨fun h hg _ => h hg, fun h hg => h hg (Ne.symm hi)⟩
    · have hlt : insn.rn < 31 := Nat.lt_of_le_of_ne (Nat.le_of_lt_succ Insn.rn_lt) hsp
      have hskip : (cpu.skipLoad pc insn).regs = update (update cpu.regs insn.rt 0) insn.rn
          ((update cpu.regs insn.rt 0 insn.rn + insn.imm9) &&& 0xffffffffffff) := by
        rw [skipLoad_eq, ← zeroedRegs_of_not_ldp hldp]
        exact if_pos ⟨hwb, hlt⟩
      simp only [hskip, hsp, if_false, ne_eq, not_false_eq_true, forall_const, false_implies,
        and_true, true_and]
      have hbaseVal : (e.zeroed cpu next).regs insn.rn = cpu.regs insn.rn + insn.imm9 := by
        rw [LoadEffect.zeroed_regs_base (hrn hwb hsp) hlt, hshift, if_pos rfl]
      constructor
      · intro h
        refine ⟨fun i hg hne => ?_, ?_⟩
        · have hi := h i
          rw [update_of_ne (Ne.symm hne)] at hi
          exact (hother i hne).mp hi hg
        · have hi := h insn.rn
          rwa [update_self, hbaseVal] at hi
      · rintro ⟨hregs, hval⟩ i
        by_cases hi : insn.rn = i
        · rw [← hi, update_self, hbaseVal, hval]
        · rw [update_of_ne (Ne.symm hi)]
          exact (hother i hi).mpr fun hg => hregs i hg hi
  · have hb : e.base = none := by rw [hbase, Insn.base, if_neg hwb]
    have hshift := LoadEffect.shift_none hb
    simp only [hwb, Bool.false_eq_true, false_implies, and_true, hshift, forall_const]
    have hskip : (cpu.skipLoad pc insn).regs = update cpu.regs insn.rt 0 := by
      rw [skipLoad_eq, ← zeroedRegs_of_not_ldp hldp]
      exact if_neg fun h => hwb h.1
    rw [hskip]
    refine forall_congr' fun i => ?_
    by_cases hi : i ∈ e.gprs
    · rw [LoadEffect.zeroed_regs_of_mem hi, hgprs i hi, update_self]
      exact iff_of_true rfl fun h => absurd (hgprs i hi ▸ hi) h
    · rw [LoadEffect.zeroed_regs_of_shift hi (hshift i)]
      exact ⟨fun h _ => h, fun h => h hi⟩

lemma skipLoad_right {other : Insn → Option LoadEffect} {e : LoadEffect} (h : insn.Found)
    (he : insn.loadEffect other = some e) :
    cpu.skipLoad pc insn = e.zeroed cpu next ↔ insn.ZeroRight cpu ∧ pc + 4 = next := by
  rw [skipLoad_eq_zeroed]
  refine and_congr_left fun _ => ?_
  rw [← and_assoc]
  rcases Insn.effect_of_found h he with ⟨hldp, hwb, he⟩ | ⟨hldp, he⟩
  · have hnv : insn.isVector = false := by
      rw [Insn.isVector, Insn.bits_of_mask (Insn.isLdp_mask hldp) (by decide)]
      rfl
    have hb : e.base = none := by rw [he]
    refine iff_of_true ⟨⟨skipLoad_pair hldp hwb h.2 he, LoadEffect.shift_none hb 31⟩, ?_⟩ ?_
    · rw [he]
      exact fun i hi => by cases hi
    · constructor
      · exact fun h => absurd (hnv.symm.trans h) Bool.false_ne_true
      · exact fun h => absurd (hnv.symm.trans h) Bool.false_ne_true
      · exact fun h => absurd (hwb.symm.trans h) Bool.false_ne_true
      · exact fun h => absurd (hwb.symm.trans h) Bool.false_ne_true
  · by_cases hv : insn.isVector = true
    · rw [if_pos hv] at he
      subst he
      rw [skipLoad_one hldp rfl h.2 (fun i hi => by cases hi) fun _ _ hi => by cases hi]
      constructor
      · rintro ⟨⟨hregs, hstack, hbase⟩, hfp⟩
        refine ⟨fun _ => hfp _ (List.mem_singleton_self _), fun _ hne => ?_, hstack, hbase⟩
        have hrt := hregs insn.rt (List.not_mem_nil) hne
        rwa [update_self, eq_comm] at hrt
      · rintro ⟨hfp, hgen, hstack, hbase⟩
        refine ⟨⟨fun i _ hne => ?_, hstack, hbase⟩, fun i hi => ?_⟩
        · by_cases hi : i = insn.rt
          · rw [hi, update_self, hgen hv (hi ▸ hne)]
          · exact update_of_ne hi _ _
        · rw [List.mem_singleton.mp hi]
          exact hfp hv
    · rw [if_neg hv] at he
      obtain ⟨rfl, hrn⟩ := he
      have hne : insn.hasWriteback = true → insn.rn ≠ 31 → insn.rn ∉ [insn.rt] := by
        intro hwb hrn31 hmem
        refine hrn31 (hrn ?_ (List.mem_singleton.mp hmem).symm)
        rw [Insn.base, if_pos hwb]
        rfl
      rw [skipLoad_one hldp rfl h.2 (fun i hi => List.mem_singleton.mp hi) hne]
      constructor
      · rintro ⟨⟨-, hstack, hbase⟩, -⟩
        exact ⟨fun h => absurd h hv, fun h => absurd h hv, hstack, hbase⟩
      · rintro ⟨-, -, hstack, hbase⟩
        refine ⟨⟨fun i hi _ => ?_, hstack, hbase⟩, fun i hi => by cases hi⟩
        exact update_of_ne (fun h => hi (List.mem_singleton.mpr h)) _ _

end JitCpu

/-! ### The recovery -/

namespace ReadRecovery

def Spent (r : ReadRecovery) (addr : BitVec 64) : Prop :=
  r.lastRecoveryAddr = addr ∧ 8 ≤ r.readRecoveryCount

lemma readRecovery_eq_some {r : ReadRecovery} {cpu cpu' : JitCpu}
    (hread : cpu.segfaultWasWrite = false) : (readRecovery mem r cpu).2 = some cpu' ↔
      ¬ r.Spent cpu.segfaultAddr ∧ ∃ i < 8, ∃ insn, FirstFound mem cpu.pc i insn ∧
        cpu' = cpu.skipLoad (cpu.pc + .ofNat 64 (4 * i)) insn := by
  have hscan : (scanForLoad mem 8 cpu.pc).map (fun found => cpu.skipLoad found.1 found.2) =
      some cpu' ↔ ∃ i < 8, ∃ insn, FirstFound mem cpu.pc i insn ∧
        cpu' = cpu.skipLoad (cpu.pc + .ofNat 64 (4 * i)) insn := by
    rw [Option.map_eq_some_iff]
    constructor
    · rintro ⟨⟨a, insn⟩, hfound, rfl⟩
      obtain ⟨i, hi, rfl, h⟩ := scanForLoad_eq_some.mp hfound
      exact ⟨i, hi, insn, h, rfl⟩
    · rintro ⟨i, hi, insn, h, rfl⟩
      exact ⟨(_, insn), scanForLoad_eq_some.mpr ⟨i, hi, rfl, h⟩, rfl⟩
  rw [readRecovery, if_neg (by rw [hread]; exact Bool.false_ne_true), ← hscan]
  by_cases haddr : cpu.segfaultAddr = r.lastRecoveryAddr
  · rw [if_neg (not_not_intro haddr)]
    by_cases hcount : r.readRecoveryCount < 8
    · rw [if_pos hcount]
      exact (and_iff_right fun h => Nat.not_le.mpr hcount h.2).symm
    · rw [if_neg hcount]
      refine iff_of_false (fun h => by cases h) fun h => ?_
      exact h.1 ⟨haddr.symm, Nat.not_lt.mp hcount⟩
  · rw [if_pos haddr, if_pos (show 0 < 8 by decide)]
    exact (and_iff_right fun h => haddr h.1.symm).symm

end ReadRecovery

/-- When it recovers from the fault of a load, the handler does that load with zeros and goes on
behind it exactly if the limit is used up, or the first word that the scan finds, if any, is the
load, and its registers are the ones that get zero. -/
theorem readRecovery_repairs (f : LoadFault) (r : ReadRecovery) :
    (∀ cpu', (readRecovery f.mem r f.cpu).2 = some cpu' →
      cpu' = f.effect.zeroed f.cpu (f.loadPc + 4)) ↔
    r.Spent f.cpu.segfaultAddr ∨ ∀ i < 8, ∀ insn, FirstFound f.mem f.cpu.pc i insn →
      f.cpu.pc + .ofNat 64 (4 * i) = f.loadPc ∧ insn.ZeroRight f.cpu := by
  simp only [ReadRecovery.readRecovery_eq_some f.isRead]
  by_cases hspent : r.Spent f.cpu.segfaultAddr
  · exact iff_of_true (fun _ h => absurd hspent h.1) (Or.inl hspent)
  rw [or_iff_right hspent]
  have hright : ∀ {i insn}, FirstFound f.mem f.cpu.pc i insn →
      (f.cpu.skipLoad (f.cpu.pc + .ofNat 64 (4 * i)) insn =
          f.effect.zeroed f.cpu (f.loadPc + 4) ↔
        f.cpu.pc + .ofNat 64 (4 * i) = f.loadPc ∧ insn.ZeroRight f.cpu) := by
    intro i insn h
    by_cases hpc : f.cpu.pc + .ofNat 64 (4 * i) = f.loadPc
    · have hinsn : insn = f.insn := by
        have hread := h.read
        rw [hpc, f.read] at hread
        exact (Option.some.inj hread).symm
      rw [JitCpu.skipLoad_right h.found (hinsn ▸ f.load), hpc, and_comm]
      simp
    · refine iff_of_false (fun heq => hpc ?_) fun h => hpc h.1
      rw [JitCpu.skipLoad_eq] at heq
      exact add_right_cancel (congrArg JitCpu.pc heq)
  constructor
  · intro h i hi insn hfirst
    exact (hright hfirst).mp (h _ ⟨hspent, i, hi, insn, hfirst, rfl⟩)
  · rintro h cpu' ⟨-, i, hi, insn, hfirst, rfl⟩
    exact (hright hfirst).mpr (h i hi insn hfirst)

/-- `ldr x1, [x2]` and `ldr x3, [x4]` at `0x1000`. -/
def twoLoads : UserBytes := fun a =>
  [0x41, 0x00, 0x40, 0xf9, 0x83, 0x00, 0x40, 0xf9][(a - 0x1000).toNat]?

def secondFaults : LoadFault where
  endsBlock _ := false
  other _ := none
  mem := twoLoads
  ran := [0x1000]
  loadPc := 0x1004
  insn := 0xf9400083
  effect := ⟨[3], [], none⟩
  cpu :=
    { regs := fun _ => 0, sp := 0, pc := 0x1000, nzcv := 0, fp := fun _ => 0, tlsPtr := 0
      segfaultAddr := 0, segfaultWasWrite := false, trapno := .gpf, cycle := 0 }
  path := .next (show readWord twoLoads 0x1000 = some 0xf9400041 by decide) rfl (.here 0 0x1004)
  read := by decide
  load := by decide
  isRead := rfl

/-- The handler goes on after the first load, and the second has not been done. -/
theorem readRecovery_not_repairs : ¬ ∀ (f : LoadFault) (r : ReadRecovery) (cpu' : JitCpu),
    (readRecovery f.mem r f.cpu).2 = some cpu' → cpu' = f.effect.zeroed f.cpu (f.loadPc + 4) := by
  intro h
  have hpc := congrArg JitCpu.pc (h secondFaults ⟨0, 0⟩ _ rfl)
  exact absurd hpc (by decide)

end ShellBox
