import ShellBox.Asbestos.LoadPair

/-!
# Pairs follow the architecture

What the code makes of a pair is told once for all paths: the paths of one instruction leave the
same registers and the same memory. Against the architecture two things are missing. Loaded words
are not sign-extended, and a new base is cut to 48 bits. The encodings that should be undefined are
so for vector registers only.
-/

namespace ShellBox

open Function

/-! ### The architecture -/

inductive PairMode where
  | offset | pre | post
  deriving DecidableEq

/-- An allocated load or store of a pair. Its elements are of `2 ^ scale` bytes. -/
structure PairInsn where
  isVector : Bool
  scale : ℕ
  signed : Bool
  isLoad : Bool
  mode : PairMode
  imm7 : BitVec 64
  rt : ℕ
  rt2 : ℕ
  rn : ℕ
  deriving DecidableEq

def Insn.archMode (insn : Insn) : PairMode :=
  if insn.bits 23 2 = 1 then .post else if insn.bits 23 2 = 3 then .pre else .offset

def Insn.toPair (insn : Insn) (scale : ℕ) (signed : Bool) : PairInsn where
  isVector := insn.isVector
  scale := scale
  signed := signed
  isLoad := insn.pairIsLoad
  mode := insn.archMode
  imm7 := insn.imm7
  rt := insn.rt
  rt2 := insn.rt2
  rn := insn.rn

/-- The allocated encodings. `LDPSW` is a load and has no form without a temporal hint. -/
def archPair (insn : Insn) : Option PairInsn :=
  if insn.isVector then
    match insn.pairOpc with
    | 0 => some (insn.toPair 2 false)
    | 1 => some (insn.toPair 3 false)
    | 2 => some (insn.toPair 4 false)
    | _ => none
  else
    match insn.pairOpc with
    | 0 => some (insn.toPair 2 false)
    | 1 => if insn.pairIsLoad ∧ insn.bits 23 2 ≠ 0 then some (insn.toPair 2 true) else none
    | 2 => some (insn.toPair 3 false)
    | _ => none

namespace PairInsn

variable (i : PairInsn)

def elem : ℕ := 2 ^ i.scale

def off : BitVec 64 := i.imm7 <<< i.scale

def kind : AccessType := if i.isLoad then .read else .write

def addr (c : JitCpu) : BitVec 64 :=
  match i.mode with
  | .post => c.slot i.rn
  | _     => c.slot i.rn + i.off

def extend (v : ℕ) : BitVec 128 :=
  if i.signed then ((BitVec.ofNat 32 v).signExtend 64).setWidth 128 else .ofNat 128 v

def operand (c : JitCpu) (r : ℕ) : BitVec 128 :=
  if i.isVector then c.fp r else (c.reg r).setWidth 128

def pairBytes (c : JitCpu) (k : ℕ) : UInt8 :=
  if k < i.elem then UInt8.ofNat ((i.operand c i.rt).toNat / 256 ^ k)
  else UInt8.ofNat ((i.operand c i.rt2).toNat / 256 ^ (k - i.elem))

def writesBack : Prop := i.mode ≠ .offset

def Overlaps : Prop :=
  i.isLoad ∧ ¬ i.isVector ∧ i.writesBack ∧ i.rn ≠ 31 ∧ (i.rt = i.rn ∨ i.rt2 = i.rn)

/-- A register that is loaded with a defined value: not the zero register, not loaded twice and not
the base. -/
def Defines (r : ℕ) : Prop :=
  i.rt ≠ i.rt2 ∧ (i.isVector ∨ r ≠ 31 ∧ ¬ (i.writesBack ∧ r = i.rn))

def Writes (r : ℕ) : Prop :=
  (i.isLoad ∧ ¬ i.isVector ∧ (r = i.rt ∨ r = i.rt2)) ∨ (i.writesBack ∧ r = i.rn)

structure Effect (mmu : Mmu) (s s' : JitState) : Prop where
  loads : i.isLoad → s'.mem = s.mem
  stores : ¬ i.isLoad →
    mmu.guestWrite s.mem (i.addr s.cpu) (i.pairBytes s.cpu) (i.elem + i.elem) = some s'.mem
  first : i.isLoad → i.Defines i.rt →
    i.operand s'.cpu i.rt = i.extend (loadLE (mmu.guestBytes s.mem (i.addr s.cpu)) 0 i.elem)
  second : i.isLoad → i.Defines i.rt2 →
    i.operand s'.cpu i.rt2 =
      i.extend (loadLE (mmu.guestBytes s.mem (i.addr s.cpu)) i.elem i.elem)
  base : i.writesBack → ¬ i.Overlaps → s'.cpu.slot i.rn = s.cpu.slot i.rn + i.off
  regs : ∀ r, ¬ i.Writes r → s'.cpu.regs r = s.cpu.regs r
  sp : ¬ (i.writesBack ∧ i.rn = 31) → s'.cpu.sp = s.cpu.sp
  fp : ∀ r, ¬ (i.isLoad ∧ i.isVector ∧ (r = i.rt ∨ r = i.rt2)) → s'.cpu.fp r = s.cpu.fp r
  rest : { s'.cpu with regs := s.cpu.regs, sp := s.cpu.sp, fp := s.cpu.fp } = s.cpu

/-- The states in which the code does what the instruction should do, as far as the access is
mapped. -/
structure Fits (mmu : Mmu) (s : JitState) : Prop where
  /-- The new base is an address. -/
  base : i.writesBack → ¬ i.Overlaps → (s.cpu.slot i.rn + i.off).toNat < 2 ^ 48
  /-- Words that should be sign-extended are not negative. -/
  first : i.signed → i.Defines i.rt →
    loadLE (mmu.guestBytes s.mem (i.addr s.cpu)) 0 i.elem < 2 ^ 31
  second : i.signed → i.Defines i.rt2 →
    loadLE (mmu.guestBytes s.mem (i.addr s.cpu)) i.elem i.elem < 2 ^ 31

end PairInsn

/-- The code of an encoding does in a state what the architecture says: an unallocated one raises
the interrupt and changes nothing, and an allocated one has its effect, or faults if the access is
not mapped. -/
def PairRight (mmu : Mmu) (insn : Insn) (s : JitState) : Prop :=
  match archPair insn with
  | none => ∃ gs s', genLdstPair insn = .undefined gs ∧ execGadgets mmu gs s = some s' ∧
    s'.cpu = s.cpu ∧ s'.mem = s.mem
  | some i => ∃ gs, genLdstPair insn = .gadgets gs ∧
    match execGadgets mmu gs s with
    | none    => ¬ mmu.Mapped i.kind (i.addr s.cpu) (i.elem + i.elem)
    | some s' => mmu.Mapped i.kind (i.addr s.cpu) (i.elem + i.elem) ∧ i.Effect mmu s s'

def pairPaths (insn : Insn) : List (List Gadget) :=
  if insn.pairMode = 2 ∨ insn.pairMode = 0 then
    pairImmPath insn false ::
      if insn.rn ≠ 31 ∧ insn.rt ≠ 31 ∧ insn.rt2 ≠ 31 then [pairImmPath insn true] else []
  else
    pairStepsPath insn :: (if insn.pairOpc = 2 ∧ insn.rn = 31 then [pairSpPath insn] else []) ++
      if insn.pairOpc = 2 ∧ insn.rn ≠ 31 ∧ insn.rt ≠ 31 ∧ insn.rt2 ≠ 31 ∧ insn.rn ≠ insn.rt ∧
        insn.rn ≠ insn.rt2 then [pairFastPath insn] else []

def JitState.seen (s : JitState) : JitCpu × HostMem := (s.cpu, s.mem)

def PathsAgree (mmu : Mmu) (insn : Insn) (s : JitState) : Prop :=
  ∀ gs ∈ pairPaths insn, ∀ gs' ∈ pairPaths insn,
    (execGadgets mmu gs s).map JitState.seen = (execGadgets mmu gs' s).map JitState.seen

def PairFits (mmu : Mmu) (insn : Insn) (s : JitState) : Prop :=
  match archPair insn with
  | none   => insn.isVector
  | some i => mmu.Mapped i.kind (i.addr s.cpu) (i.elem + i.elem) → i.Fits mmu s

/-! ### What the code does -/

variable {mmu : Mmu} {s s₁ s' : JitState} {i : PairInsn}

namespace PairInsn

variable (i)

def v1 (mmu : Mmu) (s : JitState) : BitVec 128 :=
  .ofNat 128 (loadLE (mmu.guestBytes s.mem (i.addr s.cpu)) 0 i.elem)

def v2 (mmu : Mmu) (s : JitState) : BitVec 128 :=
  .ofNat 128 (loadLE (mmu.guestBytes s.mem (i.addr s.cpu)) i.elem i.elem)

def loaded (put : JitCpu → BitVec 128 → BitVec 128 → JitCpu) (mmu : Mmu) (s : JitState) : JitCpu :=
  if i.isLoad then put s.cpu (i.v1 mmu s) (i.v2 mmu s) else s.cpu

def put : JitCpu → BitVec 128 → BitVec 128 → JitCpu :=
  if i.isVector then JitCpu.putFps i.rt i.rt2 else JitCpu.putRegs i.rt i.rt2

/-- The new base. After the access it is computed from the register as it is then. -/
def based (c c₁ : JitCpu) : JitCpu :=
  match i.mode with
  | .offset => c₁
  | .pre    => c₁.setSlot i.rn (guestAddr (c.slot i.rn + i.off))
  | .post   => c₁.setSlot i.rn (guestAddr (c₁.slot i.rn + i.off))

structure Accessed (put : JitCpu → BitVec 128 → BitVec 128 → JitCpu) (mmu : Mmu) (s s₁ s' : JitState) :
    Prop where
  cpu : s'.cpu = i.loaded put mmu s
  loads : i.isLoad → s'.mem = s.mem
  stores : ¬ i.isLoad →
    mmu.guestWrite s.mem (i.addr s.cpu) (i.pairBytes s.cpu) (i.elem + i.elem) = some s'.mem
  valueAddr : s'.valueAddr = s₁.valueAddr ∨ s'.valueAddr = s₁.addr

structure Done (mmu : Mmu) (s s' : JitState) : Prop where
  cpu : s'.cpu = i.based s.cpu (i.loaded i.put mmu s)
  loads : i.isLoad → s'.mem = s.mem
  stores : ¬ i.isLoad →
    mmu.guestWrite s.mem (i.addr s.cpu) (i.pairBytes s.cpu) (i.elem + i.elem) = some s'.mem

/-- The access has its address in `_addr`. -/
structure Addressed (s s₁ : JitState) : Prop where
  cpu : s₁.cpu = s.cpu
  mem : s₁.mem = s.mem
  addr : guestAddr s₁.addr = guestAddr (i.addr s.cpu)

end PairInsn

variable {put : JitCpu → BitVec 128 → BitVec 128 → JitCpu}

lemma accessed_loadPair (hl : i.isLoad) (hpos : 0 < i.elem) (hpage : i.elem + i.elem ≤ pageSize)
    (h : i.Addressed s s₁) :
    Outcome (loadPair i.elem put mmu s₁) (mmu.Mapped i.kind (i.addr s.cpu) (i.elem + i.elem))
      (i.Accessed put mmu s s₁) := by
  rw [PairInsn.kind, if_pos hl]
  refine (outcome_readAccess (by omega) hpage h.addr fun c b b' hb => ?_).mono fun s' hs' => ?_
  · rw [loadLE_congr (p := 0) fun k hk => hb (0 + k) (by omega),
      loadLE_congr (p := i.elem) fun k hk => hb (i.elem + k) (by omega)]
  · rw [h.cpu, h.mem] at hs'
    refine ⟨?_, fun _ => hs'.2.1, fun hno => absurd hl hno, hs'.2.2⟩
    rw [hs'.1, PairInsn.loaded, if_pos hl]
    rfl

lemma guestWrite_congr {m : HostMem} {a : BitVec 64} {b b' : ℕ → UInt8} {n : ℕ}
    (h : ∀ k < n, b k = b' k) : mmu.guestWrite m a b n = mmu.guestWrite m a b' n := by
  induction n with
  | zero => rfl
  | succ n ih =>
    rw [Mmu.guestWrite, Mmu.guestWrite, ih fun k hk => h k (Nat.lt_succ_of_lt hk),
      h n n.lt_succ_self]

lemma accessed_stores {stores : List HostStore} (hl : ¬ i.isLoad) (hpos : 0 < i.elem)
    (hpage : i.elem + i.elem ≤ pageSize) (hfill : Fills stores (i.elem + i.elem))
    (hbytes : ∀ k < i.elem + i.elem, storedBytes stores k = i.pairBytes s.cpu k)
    (h : i.Addressed s s₁) :
    Outcome (s₁.writeAccess mmu (i.elem + i.elem) stores)
      (mmu.Mapped i.kind (i.addr s.cpu) (i.elem + i.elem)) (i.Accessed put mmu s s₁) := by
  rw [PairInsn.kind, if_neg hl]
  refine (outcome_writeAccess (by omega) hpage hfill h.addr).mono fun s' hs' => ?_
  rw [h.cpu, h.mem, guestWrite_congr hbytes] at hs'
  refine ⟨?_, fun hyes => absurd hyes hl, fun _ => hs'.2.1, hs'.2.2⟩
  rw [hs'.1, PairInsn.loaded, if_neg hl]

/-! ### The bytes of a store -/

lemma storedBytes_pair {e v1 v2 k : ℕ} (hk : k < e + e) :
    storedBytes [⟨0, e, v1⟩, ⟨e, e, v2⟩] k =
      if k < e then UInt8.ofNat (v1 / 256 ^ k) else UInt8.ofNat (v2 / 256 ^ (k - e)) := by
  show storeLE (storeLE (fun _ => 0) (0 + 0) e v1) (0 + e) e v2 k = _
  rw [Nat.zero_add, Nat.zero_add]
  split_ifs with hlow
  · rw [storeLE_of_notMem (Or.inl hlow), storeLE, if_pos (by omega), Nat.sub_zero]
  · rw [storeLE, if_pos (by omega)]

lemma fills_pair {e v1 v2 : ℕ} : Fills [⟨0, e, v1⟩, ⟨e, e, v2⟩] (e + e) where
  inside := by
    intro st hst
    rw [List.mem_pair] at hst
    rcases hst with rfl | rfl <;> simp
  covers := by
    intro k hk
    by_cases hlow : k < e
    · exact ⟨_, List.mem_cons_self, Nat.zero_le _, by simpa using hlow⟩
    · exact ⟨_, List.mem_cons_of_mem _ List.mem_cons_self, Nat.le_of_not_lt hlow, hk⟩

lemma byte_mod (x : ℕ) {k n : ℕ} (hk : k < n) :
    UInt8.ofNat (x % 256 ^ n / 256 ^ k) = UInt8.ofNat (x / 256 ^ k) := by
  obtain ⟨d, rfl⟩ := Nat.exists_eq_add_of_lt hk
  apply UInt8.toNat_inj.mp
  rw [UInt8.toNat_ofNat', UInt8.toNat_ofNat', Nat.add_assoc, Nat.pow_add, Nat.mod_mul_right_div_self]
  exact Nat.mod_mod_of_dvd _ ⟨256 ^ d, by rw [Nat.pow_succ, Nat.mul_comm]⟩

lemma byte_fpLow (c : JitCpu) (r : ℕ) {k : ℕ} (hk : k < 8) :
    UInt8.ofNat ((fpLow c r).toNat / 256 ^ k) = UInt8.ofNat ((c.fp r).toNat / 256 ^ k) := by
  rw [fpLow, BitVec.extractLsb'_toNat, Nat.shiftRight_zero]
  exact byte_mod _ hk

lemma byte_fpHigh (c : JitCpu) (r : ℕ) {k : ℕ} (hk : k < 8) :
    UInt8.ofNat ((fpHigh c r).toNat / 256 ^ k) = UInt8.ofNat ((c.fp r).toNat / 256 ^ (k + 8)) := by
  have hpow : 2 ^ 64 = 256 ^ 8 := by norm_num
  rw [fpHigh, BitVec.extractLsb'_toNat, Nat.shiftRight_eq_div_pow, hpow, byte_mod _ hk,
    Nat.div_div_eq_div_mul, ← Nat.pow_add, Nat.add_comm]

lemma storedBytes_four {a b c d k : ℕ} (hk : k < 32) :
    storedBytes [⟨0, 8, a⟩, ⟨8, 8, b⟩, ⟨16, 8, c⟩, ⟨24, 8, d⟩] k =
      if k < 16 then if k < 8 then UInt8.ofNat (a / 256 ^ k) else UInt8.ofNat (b / 256 ^ (k - 8))
      else if k < 24 then UInt8.ofNat (c / 256 ^ (k - 16)) else UInt8.ofNat (d / 256 ^ (k - 24)) := by
  show storeLE (storeLE (storeLE (storeLE (fun _ => 0) (0 + 0) 8 a) (0 + 8) 8 b) (0 + 16) 8 c)
    (0 + 24) 8 d k = _
  by_cases h24 : 24 ≤ k
  · rw [if_neg (by omega), if_neg (by omega), storeLE, if_pos (by omega)]
  rw [storeLE_of_notMem (by omega)]
  by_cases h16 : 16 ≤ k
  · rw [if_neg (by omega), if_pos (by omega), storeLE, if_pos (by omega)]
  rw [storeLE_of_notMem (by omega), if_pos (by omega)]
  by_cases h8 : 8 ≤ k
  · rw [if_neg (by omega), storeLE, if_pos (by omega)]
  · rw [storeLE_of_notMem (by omega), if_pos (by omega), storeLE, if_pos (by omega), Nat.sub_zero]

lemma fills_four {a b c d : ℕ} :
    Fills [⟨0, 8, a⟩, ⟨8, 8, b⟩, ⟨16, 8, c⟩, ⟨24, 8, d⟩] 32 where
  inside := by simp
  covers := by
    intro k hk
    simp only [List.mem_cons, List.not_mem_nil, or_false, exists_eq_or_imp, exists_eq_left]
    omega

/-! ### The accesses -/

variable {w : BitVec 64}

def HoldsPair (i : PairInsn) (w : BitVec 64) : Prop :=
  (w.extractLsb' 0 5).toNat = i.rt ∧ (w.extractLsb' 8 5).toNat = i.rt2

lemma PairInsn.Accessed.setAddr {a : BitVec 64} (h : i.Accessed put mmu s s₁ s') :
    i.Accessed put mmu s s₁ { s' with addr := a } :=
  ⟨h.cpu, h.loads, h.stores, h.valueAddr⟩

lemma operand_general (hv : i.isVector = false) (c : JitCpu) (r : ℕ) :
    i.operand c r = (c.reg r).setWidth 128 := by
  rw [PairInsn.operand, hv]
  rfl

lemma operand_vector (hv : i.isVector = true) (c : JitCpu) (r : ℕ) : i.operand c r = c.fp r := by
  rw [PairInsn.operand, hv]
  rfl

lemma operand_toNat (hv : i.isVector = false) (c : JitCpu) (r : ℕ) :
    (i.operand c r).toNat = (c.reg r).toNat := by
  rw [operand_general hv, BitVec.toNat_setWidth]
  exact Nat.mod_eq_of_lt ((c.reg r).isLt.trans (by decide))

lemma accessed_storePair (hv : i.isVector = false) (hl : ¬ i.isLoad)
    (he : i.elem = 4 ∨ i.elem = 8) (h : i.Addressed s s₁) :
    Outcome (storePair i.elem (s.cpu.reg i.rt) (s.cpu.reg i.rt2) mmu s₁)
      (mmu.Mapped i.kind (i.addr s.cpu) (i.elem + i.elem)) (i.Accessed put mmu s s₁) := by
  have hpage : i.elem + i.elem ≤ pageSize := by rw [pageSize]; omega
  refine accessed_stores hl (by omega) hpage fills_pair (fun k hk => ?_) h
  rw [storedBytes_pair hk, PairInsn.pairBytes, operand_toNat hv, operand_toNat hv]

lemma accessed_regs (hv : i.isVector = false) (hw : HoldsPair i w) (he : i.elem = 4 ∨ i.elem = 8)
    (h : i.Addressed s s₁) :
    Outcome ((if i.isLoad then ldpAt i.elem w else stpAt i.elem w) mmu s₁)
      (mmu.Mapped i.kind (i.addr s.cpu) (i.elem + i.elem))
      (i.Accessed (JitCpu.putRegs i.rt i.rt2) mmu s s₁) := by
  have hpage : i.elem + i.elem ≤ pageSize := by rw [pageSize]; omega
  obtain ⟨hrt, hrt2⟩ := hw
  split_ifs with hl
  · rw [ldpAt, hrt, hrt2]
    exact (accessed_loadPair hl (by omega) hpage h).restoreAddr fun _ => .setAddr
  · rw [stpAt, hrt, hrt2, h.cpu]
    exact (accessed_storePair hv hl he h).restoreAddr fun _ => .setAddr

lemma accessed_slots (hv : i.isVector = false) (hrt : i.rt ≠ 31) (hrt2 : i.rt2 ≠ 31)
    (he : i.elem = 4 ∨ i.elem = 8) (h : i.Addressed s s₁) :
    Outcome ((if i.isLoad then loadPair i.elem (JitCpu.putSlots i.rt i.rt2)
        else storePair i.elem (s.cpu.slot i.rt) (s.cpu.slot i.rt2)) mmu s₁)
      (mmu.Mapped i.kind (i.addr s.cpu) (i.elem + i.elem))
      (i.Accessed (JitCpu.putRegs i.rt i.rt2) mmu s s₁) := by
  have hpage : i.elem + i.elem ≤ pageSize := by rw [pageSize]; omega
  have hput : JitCpu.putSlots i.rt i.rt2 = JitCpu.putRegs i.rt i.rt2 := by
    funext c v1 v2
    rw [JitCpu.putSlots, JitCpu.setSlot_of_ne hrt, JitCpu.setSlot_of_ne hrt2]
    rfl
  split_ifs with hl
  · rw [hput]
    exact accessed_loadPair hl (by omega) hpage h
  · rw [JitCpu.slot_of_ne hrt, JitCpu.slot_of_ne hrt2, ← JitCpu.reg_of_ne hrt,
      ← JitCpu.reg_of_ne hrt2]
    exact accessed_storePair hv hl he h

lemma accessed_sp (hv : i.isVector = false) (he : i.elem = 8) (h : i.Addressed s s₁) :
    Outcome ((if i.isLoad then loadPair 8 (JitCpu.putSlots i.rt i.rt2)
        else storePair 8 (s.cpu.reg i.rt) (s.cpu.reg i.rt2)) mmu s₁)
      (mmu.Mapped i.kind (i.addr s.cpu) (i.elem + i.elem))
      (i.Accessed (JitCpu.putSlots i.rt i.rt2) mmu s s₁) := by
  have hpage : i.elem + i.elem ≤ pageSize := by rw [pageSize]; omega
  rw [← he]
  split_ifs with hl
  · exact accessed_loadPair hl (by omega) hpage h
  · exact accessed_storePair hv hl (Or.inr he) h

lemma accessed_fourStores (hv : i.isVector = true) (hl : ¬ i.isLoad) (he : i.elem = 16)
    (h : i.Addressed s s₁) :
    Outcome (s₁.writeAccess mmu 32
        [⟨0, 8, (fpLow s₁.cpu i.rt).toNat⟩, ⟨8, 8, (fpHigh s₁.cpu i.rt).toNat⟩,
          ⟨16, 8, (fpLow s₁.cpu i.rt2).toNat⟩, ⟨24, 8, (fpHigh s₁.cpu i.rt2).toNat⟩])
      (mmu.Mapped i.kind (i.addr s.cpu) (i.elem + i.elem)) (i.Accessed put mmu s s₁) := by
  have hsum : i.elem + i.elem = 32 := by rw [he]
  rw [h.cpu, ← hsum]
  refine accessed_stores hl (by omega) (by rw [hsum, pageSize]; omega) (hsum ▸ fills_four)
    (fun k hk => ?_) h
  rw [storedBytes_four (by omega), PairInsn.pairBytes, operand_vector hv, operand_vector hv, he]
  split_ifs
  · exact byte_fpLow _ _ (by omega)
  · rw [byte_fpHigh _ _ (by omega), Nat.sub_add_cancel (by omega)]
  · exact byte_fpLow _ _ (by omega)
  · rw [byte_fpHigh _ _ (by omega), show k - 24 + 8 = k - 16 by omega]

lemma accessed_simd (hv : i.isVector = true) (hw : HoldsPair i w) {g : Gadget}
    (hg : i.scale = 2 ∧ g = (if i.isLoad then gadgetLdpSimdS w else gadgetStpSimdS w) ∨
      i.scale = 3 ∧ g = (if i.isLoad then gadgetLdpSimdD w else gadgetStpSimdD w) ∨
      i.scale = 4 ∧ g = (if i.isLoad then gadgetLdpSimdQ w else gadgetStpSimdQ w))
    (h : i.Addressed s s₁) :
    Outcome (g mmu s₁) (mmu.Mapped i.kind (i.addr s.cpu) (i.elem + i.elem))
      (i.Accessed (JitCpu.putFps i.rt i.rt2) mmu s s₁) := by
  obtain ⟨hrt, hrt2⟩ := hw
  have hpair {e : ℕ} (he : i.elem = e) (hpage : e = 4 ∨ e = 8) (hl : ¬ i.isLoad) :
      Outcome (storePair e (fpLow s.cpu i.rt) (fpLow s.cpu i.rt2) mmu s₁)
        (mmu.Mapped i.kind (i.addr s.cpu) (i.elem + i.elem))
        (i.Accessed (JitCpu.putFps i.rt i.rt2) mmu s s₁) := by
    have hpage' : i.elem + i.elem ≤ pageSize := by rw [pageSize]; omega
    rw [← he]
    refine accessed_stores hl (by omega) hpage' fills_pair (fun k hk => ?_) h
    rw [storedBytes_pair hk, PairInsn.pairBytes, operand_vector hv, operand_vector hv]
    split_ifs
    · exact byte_fpLow _ _ (by omega)
    · exact byte_fpLow _ _ (by omega)
  rcases hg with ⟨hscale, rfl⟩ | ⟨hscale, rfl⟩ | ⟨hscale, rfl⟩
  · have he : i.elem = 4 := by rw [PairInsn.elem, hscale]; rfl
    split_ifs with hl
    · rw [gadgetLdpSimdS, ldpSimd, hrt, hrt2, ← he]
      exact accessed_loadPair hl (by omega) (by rw [he, pageSize]; omega) h
    · rw [gadgetStpSimdS, hrt, hrt2, h.cpu]
      exact (hpair he (Or.inl rfl) hl).restoreAddr fun _ => .setAddr
  · have he : i.elem = 8 := by rw [PairInsn.elem, hscale]; rfl
    split_ifs with hl
    · rw [gadgetLdpSimdD, ldpSimd, hrt, hrt2, ← he]
      exact accessed_loadPair hl (by omega) (by rw [he, pageSize]; omega) h
    · rw [gadgetStpSimdD, hrt, hrt2, h.cpu]
      exact (hpair he (Or.inr rfl) hl).restoreAddr fun _ => .setAddr
  · have he : i.elem = 16 := by rw [PairInsn.elem, hscale]; rfl
    split_ifs with hl
    · rw [gadgetLdpSimdQ, ldpSimd, hrt, hrt2, ← he]
      exact accessed_loadPair hl (by omega) (by rw [he, pageSize]; omega) h
    · rw [gadgetStpSimdQ, hrt, hrt2]
      exact (accessed_fourStores hv hl he h).restoreAddr fun _ => .setAddr

/-! ### The words of the paths -/

variable {insn : Insn}

def Insn.IsPair (insn : Insn) : Prop := insn &&& 0x3a000000 = 0x28000000

def Insn.codePair (insn : Insn) : PairInsn :=
  { insn.toPair (if insn.pairOpc = 2 then 3 else 2) false with isVector := false }

lemma pairMode_cases (h : insn.IsPair) :
    insn.pairMode = 1 ∧ insn.archMode = .post ∨ insn.pairMode = 3 ∧ insn.archMode = .pre ∨
      (insn.pairMode = 2 ∨ insn.pairMode = 0) ∧ insn.archMode = .offset := by
  have htop : insn.bits 25 1 = 0 := Insn.bits_of_mask h (by decide)
  have hmode : insn.pairMode = (insn.bits 23 2).toNat := by
    have hzero := congrArg BitVec.toNat htop
    rw [Insn.bits, BitVec.extractLsb'_toNat, Nat.shiftRight_eq_div_pow] at hzero
    rw [Insn.pairMode, Insn.bits, Insn.bits, BitVec.extractLsb'_toNat, BitVec.extractLsb'_toNat,
      Nat.shiftRight_eq_div_pow]
    change insn.toNat / 2 ^ 25 % 2 ^ 1 = 0 at hzero
    omega
  rw [hmode, Insn.archMode]
  generalize insn.bits 23 2 = mode
  revert mode
  decide

lemma signedIn_imm7 : SignedIn 7 insn.imm7 := signedIn_signExtend _ le_rfl (by decide)

lemma pairOffset_eq : insn.pairOffset = insn.codePair.off := by
  rw [Insn.pairOffset, PairInsn.off]
  show _ = insn.imm7 <<< (if insn.pairOpc = 2 then 3 else 2)
  split_ifs
  · rw [BitVec.shiftLeft_eq_mul_twoPow]
    rfl
  · rw [BitVec.shiftLeft_eq_mul_twoPow]
    rfl

lemma signedIn_pairOffset : SignedIn 10 insn.pairOffset := by
  rw [pairOffset_eq]
  show SignedIn 10 (insn.imm7 <<< (if insn.pairOpc = 2 then 3 else 2))
  split_ifs
  · have hdouble : SignedIn (7 + 3) (insn.imm7 <<< 3) :=
      signedIn_imm7.shiftLeft (by decide) (by decide)
    exact hdouble
  · have hword : SignedIn (7 + 2) (insn.imm7 <<< 2) :=
      signedIn_imm7.shiftLeft (by decide) (by decide)
    exact hword.mono (by decide)

lemma holdsPair_regs (hrt : i.rt = insn.rt) (hrt2 : i.rt2 = insn.rt2) :
    HoldsPair i insn.pairRegs := by
  obtain ⟨h1, h2⟩ := extract_pack₂ (insn.bits 0 5) (insn.bits 10 5) (by decide) (by decide)
  rw [HoldsPair, Insn.pairRegs, h1, h2, hrt, hrt2]
  exact ⟨rfl, rfl⟩

variable (insn) in
lemma pairParam_fields :
    HoldsPair insn.codePair insn.pairParam ∧
      (insn.pairParam.extractLsb' 16 5).toNat = insn.rn ∧
      (insn.pairParam.extractLsb' 24 16).signExtend 64 = insn.codePair.off := by
  obtain ⟨h1, h2, h3, h4⟩ := extract_pack₄ (insn.bits 0 5) (insn.bits 10 5) (insn.bits 5 5)
    (insn.pairOffset.setWidth 16) (by decide) (by decide) (by decide) (by decide)
  rw [HoldsPair, Insn.pairParam, Insn.pairRegs, h1, h2, h3, h4,
    signExtend_setWidth signedIn_pairOffset (by decide) (by decide) (by decide), pairOffset_eq]
  exact ⟨⟨rfl, rfl⟩, rfl, rfl⟩

variable (insn) in
lemma pairSpParam_fields :
    HoldsPair insn.codePair insn.pairSpParam ∧ spOff insn.pairSpParam = insn.codePair.off := by
  obtain ⟨h1, h2, h3⟩ := extract_pack₃ (insn.bits 0 5) (insn.bits 10 5)
    (insn.pairOffset.setWidth 32) (by decide) (by decide) (by decide)
  rw [HoldsPair, spOff, Insn.pairSpParam, Insn.pairRegs, h1, h2, h3,
    signExtend_setWidth signedIn_pairOffset (by decide) (by decide) (by decide), pairOffset_eq]
  exact ⟨⟨rfl, rfl⟩, rfl⟩

/-! ### The paths -/

def DoesPair (mmu : Mmu) (insn : Insn) (s : JitState) (gs : List Gadget) : Prop :=
  Outcome (execGadgets mmu gs s)
    (mmu.Mapped insn.codePair.kind (insn.codePair.addr s.cpu)
      (insn.codePair.elem + insn.codePair.elem)) (insn.codePair.Done mmu s)

lemma execGadgets_single {g : Gadget} : execGadgets mmu [g] s = g mmu s := by
  rw [execGadgets_cons]
  cases g mmu s <;> rfl

lemma codePair_elem : insn.codePair.elem = 4 ∨ insn.codePair.elem = 8 := by
  show 2 ^ (if insn.pairOpc = 2 then 3 else 2) = 4 ∨ 2 ^ (if insn.pairOpc = 2 then 3 else 2) = 8
  split_ifs <;> simp

lemma addressed_imm {w : BitVec 64} (hmode : i.mode = .offset)
    (hrn : (w.extractLsb' 16 5).toNat = i.rn) (hoff : (w.extractLsb' 24 16).signExtend 64 = i.off) :
    i.Addressed s (immAddr w s) where
  cpu := rfl
  mem := rfl
  addr := by rw [immAddr, hrn, hoff, guestAddr_guestAddr, PairInsn.addr, hmode]

lemma pairImmPath_eq (fast : Bool) :
    pairImmPath insn fast = [fun mmu s =>
      (if fast then
        if insn.codePair.isLoad then
          loadPair insn.codePair.elem (JitCpu.putSlots (insn.pairParam.extractLsb' 0 5).toNat
            (insn.pairParam.extractLsb' 8 5).toNat)
        else storePair insn.codePair.elem (s.cpu.slot (insn.pairParam.extractLsb' 0 5).toNat)
          (s.cpu.slot (insn.pairParam.extractLsb' 8 5).toNat)
      else if insn.codePair.isLoad then ldpAt insn.codePair.elem insn.pairParam
      else stpAt insn.codePair.elem insn.pairParam) mmu (immAddr insn.pairParam s)] := by
  have helem : insn.codePair.elem = 2 ^ (if insn.pairOpc = 2 then 3 else 2) := rfl
  have hload : insn.codePair.isLoad = insn.pairIsLoad := rfl
  rw [pairImmPath, helem, hload]
  cases fast <;> cases insn.pairIsLoad <;> by_cases h : insn.pairOpc = 2 <;> simp only [h] <;> rfl

lemma PairInsn.Accessed.done (hmode : i.mode = .offset) (h : i.Accessed i.put mmu s s₁ s') :
    i.Done mmu s s' where
  cpu := by rw [h.cpu, PairInsn.based, hmode]
  loads := h.loads
  stores := h.stores

lemma doesPair_imm (hmode : insn.archMode = .offset) {fast : Bool}
    (hfast : fast = true → insn.rn ≠ 31 ∧ insn.rt ≠ 31 ∧ insn.rt2 ≠ 31) :
    DoesPair mmu insn s (pairImmPath insn fast) := by
  obtain ⟨⟨hrt, hrt2⟩, hrn, hoff⟩ := pairParam_fields insn
  have haddr := addressed_imm (i := insn.codePair) (s := s) hmode hrn hoff
  rw [DoesPair, pairImmPath_eq, execGadgets_single]
  cases fast with
  | false => exact (accessed_regs rfl ⟨hrt, hrt2⟩ codePair_elem haddr).mono fun _ h => h.done hmode
  | true =>
    obtain ⟨_, hrt31, hrt231⟩ := hfast rfl
    rw [hrt, hrt2]
    exact (accessed_slots rfl hrt31 hrt231 codePair_elem haddr).mono fun _ h => h.done hmode

lemma outcome_withBase {g : Gadget} {pre : Bool} {mapped : Prop}
    (hmode : i.mode = if pre then .pre else .post)
    (hput : ∀ v1 v2 b, (put s.cpu v1 v2).setSlot i.rn b = (i.put s.cpu v1 v2).setSlot i.rn b)
    (hslot : pre = false → ∀ v1 v2, (i.put s.cpu v1 v2).slot i.rn = s.cpu.slot i.rn)
    (hg : ∀ s₁, i.Addressed s s₁ → Outcome (g mmu s₁) mapped (i.Accessed put mmu s s₁)) :
    Outcome (withBase pre i.rn i.off g mmu s) mapped (i.Done mmu s) := by
  have haddr : i.Addressed s { s with
      addr := if pre then guestAddr (s.cpu.slot i.rn + i.off) else guestAddr (s.cpu.slot i.rn) } := by
    refine ⟨rfl, rfl, ?_⟩
    cases pre <;> simp [PairInsn.addr, hmode]
  refine (hg _ haddr).bind (fun _ => rfl) fun s' hs' => ⟨?_, hs'.loads, hs'.stores⟩
  have hloaded (b : BitVec 64) :
      (i.loaded put mmu s).setSlot i.rn b = (i.loaded i.put mmu s).setSlot i.rn b := by
    rw [PairInsn.loaded, PairInsn.loaded]
    split_ifs
    · exact hput _ _ _
    · rfl
  show s'.cpu.setSlot i.rn _ = _
  rw [hs'.cpu, hloaded, PairInsn.based, hmode]
  cases pre with
  | true => rfl
  | false =>
    have hbase : (i.loaded i.put mmu s).slot i.rn = s.cpu.slot i.rn := by
      rw [PairInsn.loaded]
      split_ifs
      · exact hslot rfl _ _
      · rfl
    rw [← hbase]
    rfl

section Steps

variable {access : Gadget} {mapped : Prop} {rn : BitVec 5} {n : ℕ}

lemma outcome_post (hmode : i.mode = .post) (hrn : i.rn = rn.toNat) (hoff : SignedIn n i.off)
    (hpos : 0 < n) (hn : n ≤ 56)
    (h : ∀ s₁, i.Addressed s s₁ → Outcome (access mmu s₁) mapped (i.Accessed i.put mmu s s₁)) :
    Outcome (execGadgets mmu [gadgetCalcAddrBase (packAt 0 rn), access,
      gadgetUpdateBase (packAt 0 rn ||| i.off <<< 8)] s) mapped (i.Done mmu s) := by
  have haddr : i.Addressed s { s with addr := s.cpu.slot rn.toNat } :=
    ⟨rfl, rfl, by rw [PairInsn.addr, hmode, hrn]⟩
  rw [execGadgets_cons, gadgetCalcAddrBase_eq, Option.bind_some, execGadgets_cons]
  have hbase (s' : JitState) :
      execGadgets mmu [gadgetUpdateBase (packAt 0 rn ||| i.off <<< 8)] s' = some { s' with
        cpu := s'.cpu.setSlot rn.toNat (guestAddr (s'.cpu.slot rn.toNat + i.off)) } := by
    rw [execGadgets_single, gadgetUpdateBase_eq hoff hpos hn]
  refine (h _ haddr).bind hbase fun s' hs' => ⟨?_, hs'.loads, hs'.stores⟩
  show s'.cpu.setSlot rn.toNat _ = _
  rw [hs'.cpu, PairInsn.based, hmode, hrn]

lemma outcome_pre (hmode : i.mode = .pre) (hrn : i.rn = rn.toNat) (hoff : SignedIn n i.off)
    (hpos : 0 < n) (hn : n ≤ 56)
    (h : ∀ s₁, i.Addressed s s₁ → Outcome (access mmu s₁) mapped (i.Accessed i.put mmu s s₁)) :
    Outcome (execGadgets mmu [gadgetCalcAddrImm (packAt 0 rn ||| i.off <<< 8), access,
      gadgetWritebackAddr (packAt 0 rn)] s) mapped (i.Done mmu s) := by
  have haddr : i.Addressed s { s with
      addr := guestAddr (s.cpu.slot rn.toNat + i.off),
      valueAddr := guestAddr (s.cpu.slot rn.toNat + i.off) } :=
    ⟨rfl, rfl, by rw [PairInsn.addr, hmode, hrn, guestAddr_guestAddr]⟩
  rw [execGadgets_cons, gadgetCalcAddrImm_eq hoff hpos hn, Option.bind_some, execGadgets_cons]
  have hback (s' : JitState) :
      execGadgets mmu [gadgetWritebackAddr (packAt 0 rn)] s' =
        some { s' with cpu := s'.cpu.setSlot rn.toNat s'.valueAddr } := by
    rw [execGadgets_single, gadgetWritebackAddr_eq]
  refine (h _ haddr).bind hback fun s' hs' => ⟨?_, hs'.loads, hs'.stores⟩
  -- the address waits in `valueAddr`, which the access leaves alone or sets again
  have hvalue : s'.valueAddr = guestAddr (s.cpu.slot rn.toNat + i.off) := hs'.valueAddr.elim id id
  show s'.cpu.setSlot rn.toNat s'.valueAddr = _
  rw [hs'.cpu, PairInsn.based, hmode, hrn, hvalue]

lemma outcome_offset (hmode : i.mode = .offset) (hrn : i.rn = rn.toNat) (hoff : SignedIn n i.off)
    (hpos : 0 < n) (hn : n ≤ 56)
    (h : ∀ s₁, i.Addressed s s₁ → Outcome (access mmu s₁) mapped (i.Accessed i.put mmu s s₁)) :
    Outcome (execGadgets mmu [gadgetCalcAddrImm (packAt 0 rn ||| i.off <<< 8), access] s) mapped
      (i.Done mmu s) := by
  have haddr : i.Addressed s { s with
      addr := guestAddr (s.cpu.slot rn.toNat + i.off),
      valueAddr := guestAddr (s.cpu.slot rn.toNat + i.off) } :=
    ⟨rfl, rfl, by rw [PairInsn.addr, hmode, hrn, guestAddr_guestAddr]⟩
  rw [execGadgets_cons, gadgetCalcAddrImm_eq hoff hpos hn, Option.bind_some, execGadgets_single]
  exact (h _ haddr).mono fun _ hs' => hs'.done hmode

end Steps

lemma pairBase_eq : insn.pairBase = packAt 0 (insn.bits 5 5) := rfl

lemma not_isOffset (h : insn.archMode ≠ .offset) (hpair : insn.IsPair) :
    insn.pairMode = 1 ∧ insn.archMode = .post ∨ insn.pairMode = 3 ∧ insn.archMode = .pre := by
  rcases pairMode_cases hpair with hpost | hpre | hoffset
  · exact Or.inl hpost
  · exact Or.inr hpre
  · exact absurd hoffset.2 h

lemma pairSteps_access :
    (if insn.pairIsLoad then if insn.pairOpc = 2 then gadgetLdp64 insn.pairRegs
        else gadgetLdp32 insn.pairRegs
      else if insn.pairOpc = 2 then gadgetStp64 insn.pairRegs else gadgetStp32 insn.pairRegs) =
      if insn.codePair.isLoad then ldpAt insn.codePair.elem insn.pairRegs
      else stpAt insn.codePair.elem insn.pairRegs := by
  have helem : insn.codePair.elem = 2 ^ (if insn.pairOpc = 2 then 3 else 2) := rfl
  have hload : insn.codePair.isLoad = insn.pairIsLoad := rfl
  rw [helem, hload]
  cases insn.pairIsLoad <;> by_cases h : insn.pairOpc = 2 <;> simp only [h] <;> rfl

lemma doesPair_steps (hpair : insn.IsPair) (hmode : insn.archMode ≠ .offset) :
    DoesPair mmu insn s (pairStepsPath insn) := by
  have hregs : HoldsPair insn.codePair insn.pairRegs := holdsPair_regs rfl rfl
  have hoff : SignedIn 10 insn.codePair.off := pairOffset_eq ▸ signedIn_pairOffset
  have haccess (s₁ : JitState) (h : insn.codePair.Addressed s s₁) :=
    @accessed_regs mmu s s₁ insn.codePair insn.pairRegs rfl hregs codePair_elem h
  rw [DoesPair, pairStepsPath, pairSteps_access, pairOffset_eq, pairBase_eq]
  rcases not_isOffset hmode hpair with ⟨hcode, harch⟩ | ⟨hcode, harch⟩
  · simp only [hcode]
    exact outcome_post harch rfl hoff (by decide) (by decide) haccess
  · simp only [hcode]
    exact outcome_pre harch rfl hoff (by decide) (by decide) haccess

/-! A new stack pointer hides what a register 31 has got. -/

section

variable {c : JitCpu} {r : ℕ} {v b : BitVec 64}

lemma setSlot_setSlot_31 : (c.setSlot r v).setSlot 31 b = (c.setReg r v).setSlot 31 b := by
  by_cases hr : r = 31
  · subst hr
    rfl
  · rw [JitCpu.setSlot_of_ne hr]

lemma setReg_setSlot_31 : (c.setReg r v).setSlot 31 b = (c.setSlot 31 b).setReg r v := by
  unfold JitCpu.setReg
  split_ifs <;> rfl

lemma putSlots_setSlot_31 (rt rt2 : ℕ) (v1 v2 : BitVec 128) :
    (c.putSlots rt rt2 v1 v2).setSlot 31 b = (c.putRegs rt rt2 v1 v2).setSlot 31 b := by
  rw [JitCpu.putSlots, setSlot_setSlot_31, setReg_setSlot_31, setSlot_setSlot_31,
    ← setReg_setSlot_31]
  rfl

lemma putRegs_slot {rt rt2 rn : ℕ} {v1 v2 : BitVec 128} (hrt : rn ≠ rt) (hrt2 : rn ≠ rt2) :
    (c.putRegs rt rt2 v1 v2).slot rn = c.slot rn := by
  rw [JitCpu.putRegs, JitCpu.setReg_slot_of_ne hrt2, JitCpu.setReg_slot_of_ne hrt]

lemma putRegs_sp {rt rt2 : ℕ} {v1 v2 : BitVec 128} : (c.putRegs rt rt2 v1 v2).sp = c.sp := by
  rw [JitCpu.putRegs, JitCpu.setReg_sp, JitCpu.setReg_sp]

end

lemma codePair_elem_eight (hopc : insn.pairOpc = 2) : insn.codePair.elem = 8 := by
  show 2 ^ (if insn.pairOpc = 2 then 3 else 2) = 8
  rw [if_pos hopc]
  rfl

lemma archMode_eq (hpair : insn.IsPair) (hmode : insn.archMode ≠ .offset) :
    insn.archMode = if decide (insn.pairMode = 3) then .pre else .post := by
  rcases not_isOffset hmode hpair with ⟨hcode, harch⟩ | ⟨hcode, harch⟩ <;> rw [hcode, harch] <;> rfl

lemma pairSpPath_eq :
    pairSpPath insn = [fun mmu s => withBase (insn.pairMode = 3) 31 (spOff insn.pairSpParam)
      (if insn.codePair.isLoad then
          loadPair 8 (JitCpu.putSlots (insn.pairSpParam.extractLsb' 0 5).toNat
            (insn.pairSpParam.extractLsb' 8 5).toNat)
        else storePair 8 (s.cpu.reg (insn.pairSpParam.extractLsb' 0 5).toNat)
          (s.cpu.reg (insn.pairSpParam.extractLsb' 8 5).toNat)) mmu s] := by
  have hload : insn.codePair.isLoad = insn.pairIsLoad := rfl
  rw [pairSpPath, hload]
  cases insn.pairIsLoad <;> by_cases h : insn.pairMode = 3 <;> simp only [h] <;> rfl

lemma doesPair_sp (hpair : insn.IsPair) (hmode : insn.archMode ≠ .offset) (hopc : insn.pairOpc = 2)
    (hrn : insn.rn = 31) : DoesPair mmu insn s (pairSpPath insn) := by
  obtain ⟨⟨hrt, hrt2⟩, hoff⟩ := pairSpParam_fields insn
  have hbase : insn.codePair.rn = 31 := hrn
  rw [DoesPair, pairSpPath_eq, execGadgets_single, hoff, hrt, hrt2, ← hbase]
  refine outcome_withBase (archMode_eq hpair hmode) (fun v1 v2 b => ?_) (fun _ v1 v2 => ?_)
    fun s₁ h => accessed_sp rfl (codePair_elem_eight hopc) h
  · rw [hbase]
    exact putSlots_setSlot_31 _ _ v1 v2
  · rw [hbase]
    exact putRegs_sp

lemma pairFastPath_eq :
    pairFastPath insn = [fun mmu s =>
      withBase (insn.pairMode = 3) (insn.pairParam.extractLsb' 16 5).toNat (fastOff insn.pairParam)
        (if insn.codePair.isLoad then
          loadPair 8 (JitCpu.putSlots (insn.pairParam.extractLsb' 0 5).toNat
            (insn.pairParam.extractLsb' 8 5).toNat)
        else storePair 8 (s.cpu.slot (insn.pairParam.extractLsb' 0 5).toNat)
          (s.cpu.slot (insn.pairParam.extractLsb' 8 5).toNat)) mmu s] := by
  have hload : insn.codePair.isLoad = insn.pairIsLoad := rfl
  rw [pairFastPath, hload]
  cases insn.pairIsLoad <;> by_cases h : insn.pairMode = 3 <;> simp only [h] <;> rfl

lemma doesPair_fast (hpair : insn.IsPair) (hmode : insn.archMode ≠ .offset)
    (hopc : insn.pairOpc = 2) (hrt31 : insn.rt ≠ 31) (hrt231 : insn.rt2 ≠ 31)
    (hbase : insn.rn ≠ insn.rt) (hbase2 : insn.rn ≠ insn.rt2) :
    DoesPair mmu insn s (pairFastPath insn) := by
  obtain ⟨⟨hrt, hrt2⟩, hrn, hoff⟩ := pairParam_fields insn
  have helem : insn.codePair.elem = 8 := codePair_elem_eight hopc
  have hrn' : insn.rn = insn.codePair.rn := rfl
  rw [DoesPair, pairFastPath_eq, execGadgets_single, fastOff, hoff, hrt, hrt2, hrn, hrn', ← helem]
  exact outcome_withBase (archMode_eq hpair hmode) (fun _ _ _ => rfl)
    (fun _ _ _ => putRegs_slot hbase hbase2)
    fun s₁ h => accessed_slots rfl hrt31 hrt231 (Or.inr helem) h

lemma isOffset_iff (hpair : insn.IsPair) :
    (insn.pairMode = 2 ∨ insn.pairMode = 0) ↔ insn.archMode = .offset := by
  rcases pairMode_cases hpair with ⟨hcode, harch⟩ | ⟨hcode, harch⟩ | ⟨hcode, harch⟩
  · simp [hcode, harch]
  · simp [hcode, harch]
  · simp [hcode, harch]

variable (mmu s) in
lemma doesPair_of_mem (hpair : insn.IsPair) {gs : List Gadget} (hgs : gs ∈ pairPaths insn) :
    DoesPair mmu insn s gs := by
  unfold pairPaths at hgs
  by_cases hmode : insn.archMode = .offset
  · rw [if_pos ((isOffset_iff hpair).mpr hmode), List.mem_cons] at hgs
    rcases hgs with rfl | hgs
    · exact doesPair_imm hmode fun h => absurd h Bool.false_ne_true
    · split_ifs at hgs with hfast
      · rw [List.mem_singleton] at hgs
        subst hgs
        exact doesPair_imm hmode fun _ => hfast
      · cases hgs
  · rw [if_neg (mt (isOffset_iff hpair).mp hmode), List.cons_append, List.mem_cons,
      List.mem_append] at hgs
    rcases hgs with rfl | hgs | hgs
    · exact doesPair_steps hpair hmode
    · split_ifs at hgs with hsp
      · rw [List.mem_singleton] at hgs
        subst hgs
        exact doesPair_sp hpair hmode hsp.1 hsp.2
      · cases hgs
    · split_ifs at hgs with hfast
      · obtain ⟨hopc, _, hrt, hrt2, hbase, hbase2⟩ := hfast
        rw [List.mem_singleton] at hgs
        subst hgs
        exact doesPair_fast hpair hmode hopc hrt hrt2 hbase hbase2
      · cases hgs

lemma not_no_mode (hpair : insn.IsPair) : ¬ (¬ insn.pairMode = 3 ∧ ¬ insn.pairMode = 1 ∧
    ¬ (insn.pairMode = 2 ∨ insn.pairMode = 0)) := by
  rintro ⟨hpre, hpost, hoffset⟩
  rcases pairMode_cases hpair with h | h | h
  · exact hpost h.1
  · exact hpre h.1
  · exact hoffset h.1

lemma genPair_mem (hpair : insn.IsPair) : ∃ gs ∈ pairPaths insn, genPair insn = .gadgets gs := by
  unfold genPair pairPaths
  simp only [if_neg (not_no_mode hpair)]
  by_cases hoffset : insn.pairMode = 2 ∨ insn.pairMode = 0
  · rw [if_pos hoffset, if_pos hoffset]
    refine ⟨_, ?_, rfl⟩
    by_cases hfast : insn.rn ≠ 31 ∧ insn.rt ≠ 31 ∧ insn.rt2 ≠ 31
    · rw [if_pos hfast, decide_eq_true hfast]
      exact List.mem_cons_of_mem _ List.mem_cons_self
    · rw [if_neg hfast, decide_eq_false hfast]
      exact List.mem_cons_self
  rw [if_neg hoffset, if_neg hoffset]
  split_ifs with hsp hfast
  · exact ⟨_, by simp, rfl⟩
  · exact ⟨_, by simp, rfl⟩
  · exact ⟨_, by simp, rfl⟩
  · exact ⟨_, by simp, rfl⟩

/-! ### Vector registers -/

variable (insn) in
lemma pairOpc_cases : insn.pairOpc = 0 ∨ insn.pairOpc = 1 ∨ insn.pairOpc = 2 ∨ insn.pairOpc = 3 := by
  have hlt : insn.pairOpc < 4 := (insn.bits 30 2).isLt
  omega

lemma simdPair_some (hv : insn.isVector = true) (harch : archPair insn = some i) :
    ∃ scale g, i = insn.toPair scale false ∧ insn.simdOffset = i.off ∧ SignedIn 11 i.off ∧
      simdPairAccess insn = some g ∧
      (i.scale = 2 ∧ g = (if i.isLoad then gadgetLdpSimdS insn.pairRegs
          else gadgetStpSimdS insn.pairRegs) ∨
        i.scale = 3 ∧ g = (if i.isLoad then gadgetLdpSimdD insn.pairRegs
          else gadgetStpSimdD insn.pairRegs) ∨
        i.scale = 4 ∧ g = (if i.isLoad then gadgetLdpSimdQ insn.pairRegs
          else gadgetStpSimdQ insn.pairRegs)) := by
  have hload {scale : ℕ} : (insn.toPair scale false).isLoad = insn.pairIsLoad := rfl
  have hoff {scale : ℕ} : (insn.toPair scale false).off = insn.imm7 * .twoPow 64 scale := by
    rw [PairInsn.off, BitVec.shiftLeft_eq_mul_twoPow]
    rfl
  have hsigned {scale : ℕ} (hscale : scale ≤ 4) :
      SignedIn 11 (insn.toPair scale false).off := by
    have h : SignedIn (7 + scale) (insn.imm7 <<< scale) :=
      signedIn_imm7.shiftLeft (by decide) (by omega)
    exact h.mono (by omega)
  rw [archPair, if_pos hv] at harch
  rcases pairOpc_cases insn with hopc | hopc | hopc | hopc
  · rw [hopc] at harch
    obtain rfl : insn.toPair 2 false = i := Option.some.inj harch
    refine ⟨2, _, rfl, ?_, hsigned (by decide), ?_, Or.inl ⟨rfl, rfl⟩⟩
    · rw [hoff, Insn.simdOffset, hopc]
      rfl
    · rw [simdPairAccess, hopc, hload]
      cases insn.pairIsLoad <;> rfl
  · rw [hopc] at harch
    obtain rfl : insn.toPair 3 false = i := Option.some.inj harch
    refine ⟨3, _, rfl, ?_, hsigned (by decide), ?_, Or.inr (Or.inl ⟨rfl, rfl⟩)⟩
    · rw [hoff, Insn.simdOffset, hopc]
      rfl
    · rw [simdPairAccess, hopc, hload]
      cases insn.pairIsLoad <;> rfl
  · rw [hopc] at harch
    obtain rfl : insn.toPair 4 false = i := Option.some.inj harch
    refine ⟨4, _, rfl, ?_, hsigned (by decide), ?_, Or.inr (Or.inr ⟨rfl, rfl⟩)⟩
    · rw [hoff, Insn.simdOffset, hopc]
      rfl
    · rw [simdPairAccess, hopc, hload]
      cases insn.pairIsLoad <;> rfl
  · rw [hopc] at harch
    cases harch

variable (mmu s) in
lemma outcome_simd (hpair : insn.IsPair) (hv : insn.isVector = true)
    (harch : archPair insn = some i) : ∃ gs, genSimdPair insn = .gadgets gs ∧
      Outcome (execGadgets mmu gs s) (mmu.Mapped i.kind (i.addr s.cpu) (i.elem + i.elem))
        (i.Done mmu s) := by
  obtain ⟨scale, g, hi, hoffset, hoff, hg, hgadget⟩ := simdPair_some hv harch
  have hvec : i.isVector = true := by
    rw [hi]
    exact hv
  have hrn : i.rn = (insn.bits 5 5).toNat := by
    rw [hi]
    rfl
  have hmode : i.mode = insn.archMode := by
    rw [hi]
    rfl
  have hregs : HoldsPair i insn.pairRegs := by
    rw [hi]
    exact holdsPair_regs rfl rfl
  have hput : i.put = JitCpu.putFps i.rt i.rt2 := by
    rw [PairInsn.put, hvec]
    rfl
  have haccess (s₁ : JitState) (h : i.Addressed s s₁) :
      Outcome (g mmu s₁) (mmu.Mapped i.kind (i.addr s.cpu) (i.elem + i.elem))
        (i.Accessed i.put mmu s s₁) := by
    rw [hput]
    exact accessed_simd hvec hregs hgadget h
  simp only [genSimdPair, if_neg (not_no_mode hpair), hg, hoffset, pairBase_eq]
  refine ⟨_, rfl, ?_⟩
  rcases pairMode_cases hpair with ⟨hcode, harch⟩ | ⟨hcode, harch⟩ | ⟨hcode, harch⟩
  · simp only [hcode]
    exact outcome_post (hmode.trans harch) hrn hoff (by decide) (by decide) haccess
  · simp only [hcode]
    exact outcome_pre (hmode.trans harch) hrn hoff (by decide) (by decide) haccess
  · have hout := outcome_offset (hmode.trans harch) hrn hoff (by decide) (by decide) haccess
    rcases hcode with hcode | hcode
    · simp only [hcode]
      exact hout
    · simp only [hcode]
      exact hout

variable (mmu s) in
lemma simd_undefined (hpair : insn.IsPair) (hv : insn.isVector = true)
    (harch : archPair insn = none) : ∃ gs s', genSimdPair insn = .undefined gs ∧
      execGadgets mmu gs s = some s' ∧ s'.cpu = s.cpu ∧ s'.mem = s.mem := by
  have hopc : insn.pairOpc = 3 := by
    rw [archPair, if_pos hv] at harch
    rcases pairOpc_cases insn with hopc | hopc | hopc | hopc
    · rw [hopc] at harch
      cases harch
    · rw [hopc] at harch
      cases harch
    · rw [hopc] at harch
      cases harch
    · exact hopc
  have hg : simdPairAccess insn = none := by
    rw [simdPairAccess, hopc]
    cases insn.pairIsLoad <;> rfl
  simp only [genSimdPair, if_neg (not_no_mode hpair), hg]
  by_cases hpost : insn.pairMode = 1
  · simp only [if_pos hpost]
    exact ⟨_, _, rfl, execGadgets_single.trans rfl, rfl, rfl⟩
  · simp only [if_neg hpost]
    exact ⟨_, _, rfl, execGadgets_single.trans rfl, rfl, rfl⟩

/-! ### What is written -/

namespace PairInsn

section Based

variable {c c₁ : JitCpu} {r : ℕ}

lemma based_cases (i : PairInsn) (c c₁ : JitCpu) : ¬ i.writesBack ∧ i.based c c₁ = c₁ ∨
    i.writesBack ∧ ∃ b, i.based c c₁ = c₁.setSlot i.rn b := by
  unfold based writesBack
  cases hmode : i.mode with
  | offset => exact Or.inl ⟨fun h => h rfl, rfl⟩
  | pre    => exact Or.inr ⟨nofun, _, rfl⟩
  | post   => exact Or.inr ⟨nofun, _, rfl⟩

lemma based_regs (h : ¬ (i.writesBack ∧ r = i.rn)) : (i.based c c₁).regs r = c₁.regs r := by
  rcases based_cases i c c₁ with ⟨_, heq⟩ | ⟨hback, b, heq⟩
  · rw [heq]
  · rw [heq, JitCpu.setSlot_regs_of_ne fun hr => h ⟨hback, hr⟩]

lemma based_sp (h : ¬ (i.writesBack ∧ i.rn = 31)) : (i.based c c₁).sp = c₁.sp := by
  rcases based_cases i c c₁ with ⟨_, heq⟩ | ⟨hback, b, heq⟩
  · rw [heq]
  · rw [heq, JitCpu.setSlot_of_ne fun hr => h ⟨hback, hr⟩, JitCpu.setReg_sp]

lemma based_rest {regs : ℕ → BitVec 64} {sp : BitVec 64} {fp : ℕ → BitVec 128} :
    { i.based c c₁ with regs := regs, sp := sp, fp := fp } =
      { c₁ with regs := regs, sp := sp, fp := fp } := by
  rcases based_cases i c c₁ with ⟨_, heq⟩ | ⟨_, b, heq⟩
  · rw [heq]
  · rw [heq]
    unfold JitCpu.setSlot
    split_ifs <;> rfl

lemma based_fp : (i.based c c₁).fp = c₁.fp := by
  rcases based_cases i c c₁ with ⟨_, heq⟩ | ⟨_, b, heq⟩
  · rw [heq]
  · rw [heq]
    unfold JitCpu.setSlot
    split_ifs <;> rfl

lemma based_slot (hback : i.writesBack) (h : c₁.slot i.rn = c.slot i.rn) :
    (i.based c c₁).slot i.rn = guestAddr (c.slot i.rn + i.off) := by
  unfold based
  cases hmode : i.mode with
  | offset => exact absurd hmode hback
  | pre    => exact JitCpu.setSlot_slot_self
  | post   =>
    show (c₁.setSlot i.rn (guestAddr (c₁.slot i.rn + i.off))).slot i.rn = _
    rw [JitCpu.setSlot_slot_self, h]

end Based

end PairInsn

section Put

variable {c : JitCpu} {rt rt2 r : ℕ} {v1 v2 : BitVec 128}

lemma putRegs_regs (h : ¬ (r = rt ∨ r = rt2)) : (c.putRegs rt rt2 v1 v2).regs r = c.regs r := by
  obtain ⟨hrt, hrt2⟩ := not_or.mp h
  rw [JitCpu.putRegs, JitCpu.setReg_regs_of_ne hrt2, JitCpu.setReg_regs_of_ne hrt]

lemma putRegs_first (hne : rt ≠ rt2) (hrt : rt ≠ 31) :
    (c.putRegs rt rt2 v1 v2).reg rt = v1.setWidth 64 := by
  rw [JitCpu.reg_of_ne hrt, JitCpu.putRegs, JitCpu.setReg_regs_of_ne hne,
    JitCpu.setReg_regs_self hrt]

lemma putRegs_second (hrt2 : rt2 ≠ 31) :
    (c.putRegs rt rt2 v1 v2).reg rt2 = v2.setWidth 64 := by
  rw [JitCpu.reg_of_ne hrt2, JitCpu.putRegs, JitCpu.setReg_regs_self hrt2]

lemma setFp_self : (c.setFp r v1).fp r = v1 := by
  simp [JitCpu.setFp]

lemma setFp_of_ne (h : r ≠ rt) : (c.setFp rt v1).fp r = c.fp r := by
  simp [JitCpu.setFp, h]

lemma putFps_of_ne (h : ¬ (r = rt ∨ r = rt2)) : (c.putFps rt rt2 v1 v2).fp r = c.fp r := by
  obtain ⟨hrt, hrt2⟩ := not_or.mp h
  rw [JitCpu.putFps, setFp_of_ne hrt2, setFp_of_ne hrt]

lemma putFps_first (hne : rt ≠ rt2) : (c.putFps rt rt2 v1 v2).fp rt = v1 := by
  rw [JitCpu.putFps, setFp_of_ne hne, setFp_self]

lemma putFps_second : (c.putFps rt rt2 v1 v2).fp rt2 = v2 := by
  rw [JitCpu.putFps, setFp_self]

end Put

/-! ### The registers of a load -/

section Loaded

variable {r : ℕ}

lemma loaded_of_general (hv : i.isVector = false) (hl : i.isLoad = true) :
    i.loaded i.put mmu s = s.cpu.putRegs i.rt i.rt2 (i.v1 mmu s) (i.v2 mmu s) := by
  rw [PairInsn.loaded, if_pos hl, PairInsn.put, hv]
  rfl

lemma loaded_of_vector (hv : i.isVector = true) (hl : i.isLoad = true) :
    i.loaded i.put mmu s = s.cpu.putFps i.rt i.rt2 (i.v1 mmu s) (i.v2 mmu s) := by
  rw [PairInsn.loaded, if_pos hl, PairInsn.put, hv]
  rfl

lemma loaded_of_store (hl : ¬ i.isLoad) : i.loaded i.put mmu s = s.cpu := by
  rw [PairInsn.loaded, if_neg hl]

lemma loaded_regs (h : ¬ (i.isLoad ∧ ¬ i.isVector ∧ (r = i.rt ∨ r = i.rt2))) :
    (i.loaded i.put mmu s).regs r = s.cpu.regs r := by
  by_cases hl : i.isLoad
  · cases hv : i.isVector with
    | true  => rw [loaded_of_vector hv hl]; rfl
    | false =>
      rw [loaded_of_general hv hl]
      exact putRegs_regs fun hr => h ⟨hl, by simp [hv], hr⟩
  · rw [loaded_of_store hl]

lemma loaded_sp : (i.loaded i.put mmu s).sp = s.cpu.sp := by
  by_cases hl : i.isLoad
  · cases hv : i.isVector with
    | true  => rw [loaded_of_vector hv hl]; rfl
    | false => rw [loaded_of_general hv hl, putRegs_sp]
  · rw [loaded_of_store hl]

lemma loaded_fp (h : ¬ (i.isLoad ∧ i.isVector ∧ (r = i.rt ∨ r = i.rt2))) :
    (i.loaded i.put mmu s).fp r = s.cpu.fp r := by
  by_cases hl : i.isLoad
  · cases hv : i.isVector with
    | true  =>
      rw [loaded_of_vector hv hl]
      exact putFps_of_ne fun hr => h ⟨hl, hv, hr⟩
    | false =>
      rw [loaded_of_general hv hl, JitCpu.putRegs]
      unfold JitCpu.setReg
      split_ifs <;> rfl
  · rw [loaded_of_store hl]

lemma loaded_rest : { i.loaded i.put mmu s with
    regs := s.cpu.regs, sp := s.cpu.sp, fp := s.cpu.fp } = s.cpu := by
  by_cases hl : i.isLoad
  · cases hv : i.isVector with
    | true  => rw [loaded_of_vector hv hl]; rfl
    | false =>
      rw [loaded_of_general hv hl, JitCpu.putRegs]
      unfold JitCpu.setReg
      split_ifs <;> rfl
  · rw [loaded_of_store hl]

lemma loaded_slot (hback : i.writesBack) (h : ¬ i.Overlaps) :
    (i.loaded i.put mmu s).slot i.rn = s.cpu.slot i.rn := by
  by_cases hrn : i.rn = 31
  · rw [hrn, JitCpu.slot_31, loaded_sp]
    rfl
  · rw [JitCpu.slot_of_ne hrn, JitCpu.slot_of_ne hrn]
    refine loaded_regs ?_
    rintro ⟨hl, hv, hr⟩
    exact h ⟨hl, hv, hback, hrn, hr.imp Eq.symm Eq.symm⟩

end Loaded

/-! ### Against the architecture -/

lemma ofNat_eq_signExtend {v : ℕ} (hv : v < 2 ^ 32) :
    BitVec.ofNat 128 v = ((BitVec.ofNat 32 v).signExtend 64).setWidth 128 ↔ v < 2 ^ 31 := by
  have hword : (BitVec.ofNat 32 v).toNat = v := by
    rw [BitVec.toNat_ofNat, Nat.mod_eq_of_lt hv]
  have hmsb : (BitVec.ofNat 32 v).msb = decide (2 ^ 31 ≤ v) := by
    rw [BitVec.msb_eq_decide, hword]
  rw [← BitVec.toNat_inj, BitVec.toNat_ofNat, BitVec.toNat_setWidth, BitVec.toNat_signExtend,
    BitVec.toNat_setWidth, hword, hmsb]
  by_cases h : 2 ^ 31 ≤ v
  · rw [decide_eq_true h, if_pos rfl]
    omega
  · rw [decide_eq_false h, if_neg Bool.false_ne_true]
    omega

lemma ofNat_setWidth {v : ℕ} (hv : v < 2 ^ 64) :
    ((BitVec.ofNat 128 v).setWidth 64).setWidth 128 = BitVec.ofNat 128 v := by
  apply BitVec.eq_of_toNat_eq
  rw [BitVec.toNat_setWidth, BitVec.toNat_setWidth, BitVec.toNat_ofNat]
  omega

namespace PairInsn

/-- A form of the architecture: general registers have up to 64 bits, and only words are
sign-extended. -/
structure Wf (i : PairInsn) : Prop where
  general : i.isVector = false → i.elem ≤ 8
  signed : i.signed → i.isVector = false ∧ i.isLoad ∧ i.elem = 4

variable {v : ℕ}

lemma Wf.extend_eq (hi : i.Wf) (hv : v < 256 ^ i.elem) :
    BitVec.ofNat 128 v = i.extend v ↔ (i.signed → v < 2 ^ 31) := by
  unfold extend
  split_ifs with hs
  · obtain ⟨_, _, helem⟩ := hi.signed hs
    rw [helem] at hv
    rw [ofNat_eq_signExtend (hv.trans_eq (by decide))]
    exact ⟨fun h _ => h, fun h => h hs⟩
  · exact iff_of_true rfl fun h => absurd h hs

lemma Wf.ofNat_eq (hi : i.Wf) (hg : i.isVector = false) (hv : v < 256 ^ i.elem) :
    ((BitVec.ofNat 128 v).setWidth 64).setWidth 128 = BitVec.ofNat 128 v :=
  ofNat_setWidth (hv.trans_le ((Nat.pow_le_pow_right (by decide) (hi.general hg)).trans
    (by decide)))

lemma based_operand {c c₁ : JitCpu} {r : ℕ}
    (h : i.isVector ∨ r ≠ 31 ∧ ¬ (i.writesBack ∧ r = i.rn)) :
    i.operand (i.based c c₁) r = i.operand c₁ r := by
  cases hv : i.isVector with
  | true => rw [operand_vector hv, operand_vector hv, based_fp]
  | false =>
    obtain ⟨hr, hrn⟩ := h.resolve_left (by simp [hv])
    rw [operand_general hv, operand_general hv, JitCpu.reg_of_ne hr, JitCpu.reg_of_ne hr,
      based_regs hrn]

lemma Done.first (h : i.Done mmu s s') (hi : i.Wf) (hl : i.isLoad) (hdef : i.Defines i.rt) :
    i.operand s'.cpu i.rt =
      .ofNat 128 (loadLE (mmu.guestBytes s.mem (i.addr s.cpu)) 0 i.elem) := by
  rw [h.cpu, based_operand hdef.2]
  cases hv : i.isVector with
  | true => rw [operand_vector hv, loaded_of_vector hv hl, putFps_first hdef.1, v1]
  | false =>
    have hrt := (hdef.2.resolve_left (by simp [hv])).1
    rw [operand_general hv, loaded_of_general hv hl, putRegs_first hdef.1 hrt, v1,
      hi.ofNat_eq hv (loadLE_lt _ _ _)]

lemma Done.second (h : i.Done mmu s s') (hi : i.Wf) (hl : i.isLoad) (hdef : i.Defines i.rt2) :
    i.operand s'.cpu i.rt2 =
      .ofNat 128 (loadLE (mmu.guestBytes s.mem (i.addr s.cpu)) i.elem i.elem) := by
  rw [h.cpu, based_operand hdef.2]
  cases hv : i.isVector with
  | true => rw [operand_vector hv, loaded_of_vector hv hl, putFps_second, v2]
  | false =>
    have hrt2 := (hdef.2.resolve_left (by simp [hv])).1
    rw [operand_general hv, loaded_of_general hv hl, putRegs_second hrt2, v2,
      hi.ofNat_eq hv (loadLE_lt _ _ _)]

lemma Done.base (h : i.Done mmu s s') (hback : i.writesBack) (hno : ¬ i.Overlaps) :
    s'.cpu.slot i.rn = guestAddr (s.cpu.slot i.rn + i.off) := by
  rw [h.cpu, based_slot hback (loaded_slot hback hno)]

/-- What the code does is what the architecture says if the words and the new base are such as it
expects. -/
theorem Done.effect_iff (h : i.Done mmu s s') (hi : i.Wf) : i.Effect mmu s s' ↔ i.Fits mmu s := by
  constructor
  · intro heff
    refine ⟨fun hback hno => ?_, fun hs hdef => ?_, fun hs hdef => ?_⟩
    · rw [← guestAddr_eq_self, ← h.base hback hno, heff.base hback hno]
    · have hl := (hi.signed hs).2.1
      exact (hi.extend_eq (loadLE_lt _ _ _)).mp
        ((h.first hi hl hdef).symm.trans (heff.first hl hdef)) hs
    · have hl := (hi.signed hs).2.1
      exact (hi.extend_eq (loadLE_lt _ _ _)).mp
        ((h.second hi hl hdef).symm.trans (heff.second hl hdef)) hs
  · intro hfits
    refine ⟨h.loads, h.stores, fun hl hdef => ?_, fun hl hdef => ?_, fun hback hno => ?_,
      fun r hr => ?_, fun hsp => ?_, fun r hr => ?_, ?_⟩
    · rw [h.first hi hl hdef]
      exact (hi.extend_eq (loadLE_lt _ _ _)).mpr fun hs => hfits.first hs hdef
    · rw [h.second hi hl hdef]
      exact (hi.extend_eq (loadLE_lt _ _ _)).mpr fun hs => hfits.second hs hdef
    · rw [h.base hback hno, guestAddr_eq_self]
      exact hfits.base hback hno
    · rw [h.cpu, based_regs fun hback => hr (Or.inr hback), loaded_regs fun hl => hr (Or.inl hl)]
    · rw [h.cpu, based_sp hsp, loaded_sp]
    · rw [h.cpu, based_fp, loaded_fp hr]
    · rw [h.cpu]
      exact based_rest.trans loaded_rest

end PairInsn

/-! ### Every encoding -/

lemma ldstClass_pair (h : insn.IsPair) : insn.ldstClass = some .pair := by
  have hmask : insn &&& 0x3a000000 = 0x28000000 := h
  rw [Insn.ldstClass, if_neg (and_mask_ne h (by decide)), if_neg (and_mask_ne h (by decide)),
    if_neg (and_mask_ne h (by decide)), if_neg (and_mask_ne h (by decide)),
    if_neg (and_mask_ne h (by decide)), if_neg (and_mask_ne h (by decide)),
    if_neg (and_mask_ne h (by decide)), if_pos hmask]

lemma Outcome.agree {α : Type} {r r' : Option JitState} {mapped : Prop} {post : JitState → Prop}
    {f : JitState → α} (h : Outcome r mapped post) (h' : Outcome r' mapped post)
    (hf : ∀ a b, post a → post b → f a = f b) : r.map f = r'.map f := by
  by_cases hm : mapped
  · obtain ⟨a, rfl, ha⟩ := h.1 hm
    obtain ⟨b, rfl, hb⟩ := h'.1 hm
    exact congrArg some (hf a b ha hb)
  · rw [h.2 hm, h'.2 hm]

lemma PairInsn.Done.seen_eq {a b : JitState} (ha : i.Done mmu s a) (hb : i.Done mmu s b) :
    a.seen = b.seen := by
  apply Prod.ext
  · exact ha.cpu.trans hb.cpu.symm
  · by_cases hl : i.isLoad
    · exact (ha.loads hl).trans (hb.loads hl).symm
    · exact Option.some.inj ((ha.stores hl).symm.trans (hb.stores hl))

lemma pathsAgree (hpair : insn.IsPair) : PathsAgree mmu insn s := fun _ hgs _ hgs' =>
  (doesPair_of_mem mmu s hpair hgs).agree (doesPair_of_mem mmu s hpair hgs') fun _ _ => PairInsn.Done.seen_eq

lemma right_iff {gs : List Gadget} (hi : i.Wf) (hgen : genLdstPair insn = .gadgets gs)
    (hout : Outcome (execGadgets mmu gs s) (mmu.Mapped i.kind (i.addr s.cpu) (i.elem + i.elem))
      (i.Done mmu s)) :
    (∃ gs, genLdstPair insn = .gadgets gs ∧
      match execGadgets mmu gs s with
      | none    => ¬ mmu.Mapped i.kind (i.addr s.cpu) (i.elem + i.elem)
      | some s' => mmu.Mapped i.kind (i.addr s.cpu) (i.elem + i.elem) ∧ i.Effect mmu s s') ↔
      (mmu.Mapped i.kind (i.addr s.cpu) (i.elem + i.elem) → i.Fits mmu s) := by
  rw [hgen]
  simp only [LdstCode.gadgets.injEq, exists_eq_left']
  by_cases hm : mmu.Mapped i.kind (i.addr s.cpu) (i.elem + i.elem)
  · obtain ⟨s', hexec, hdone⟩ := hout.1 hm
    rw [hexec]
    exact (and_iff_right hm).trans ((hdone.effect_iff hi).trans (imp_iff_right hm).symm)
  · rw [hout.2 hm]
    exact iff_of_true hm fun h => absurd h hm

lemma wf_toPair {scale : ℕ} {signed : Bool} (hv : insn.isVector = false) (hscale : scale ≤ 3)
    (hs : signed = true → insn.pairIsLoad = true ∧ scale = 2) : (insn.toPair scale signed).Wf where
  general _ := (Nat.pow_le_pow_right (by decide) hscale).trans (by decide)
  signed h := ⟨hv, (hs h).1, by rw [PairInsn.elem, Insn.toPair, (hs h).2]; rfl⟩

lemma archPair_general (hv : insn.isVector = false) (harch : archPair insn = some i) :
    i.Wf ∧ ∃ signed, i = { insn.codePair with signed } := by
  have hcode {scale : ℕ} {signed : Bool} (hscale : (if insn.pairOpc = 2 then 3 else 2) = scale) :
      insn.toPair scale signed = { insn.codePair with signed } := by
    rw [Insn.codePair, hscale, Insn.toPair, Insn.toPair, hv]
  rw [archPair, if_neg (by simp [hv])] at harch
  rcases pairOpc_cases insn with hopc | hopc | hopc | hopc
  · rw [hopc] at harch
    obtain rfl : insn.toPair 2 false = i := Option.some.inj harch
    exact ⟨wf_toPair hv (by decide) nofun, false, hcode (by rw [hopc]; rfl)⟩
  · rw [hopc] at harch
    by_cases hl : insn.pairIsLoad ∧ insn.bits 23 2 ≠ 0
    · obtain rfl : insn.toPair 2 true = i := Option.some.inj ((if_pos hl).symm.trans harch)
      exact ⟨wf_toPair hv (by decide) fun _ => ⟨hl.1, rfl⟩, true, hcode (by rw [hopc]; rfl)⟩
    · cases (if_neg hl).symm.trans harch
  · rw [hopc] at harch
    obtain rfl : insn.toPair 3 false = i := Option.some.inj harch
    exact ⟨wf_toPair hv (by decide) nofun, false, hcode (by rw [hopc]; rfl)⟩
  · rw [hopc] at harch
    cases harch

lemma archPair_vector (hv : insn.isVector = true) (harch : archPair insn = some i) : i.Wf := by
  obtain ⟨scale, _, rfl, _⟩ := simdPair_some hv harch
  exact ⟨fun h => absurd (hv.symm.trans h) (by decide), nofun⟩

lemma pairRight_iff (h : insn.IsPair) : PairRight mmu insn s ↔ PairFits mmu insn s := by
  rw [PairRight, PairFits]
  cases harch : archPair insn with
  | none =>
    cases hv : insn.isVector with
    | true =>
      obtain ⟨gs, s', hgen, hs'⟩ := simd_undefined mmu s h hv harch
      refine iff_of_true ⟨gs, s', ?_, hs'⟩ rfl
      rw [genLdstPair, if_pos hv, hgen]
    | false =>
      obtain ⟨gs, _, hgen⟩ := genPair_mem h
      refine iff_of_false ?_ Bool.false_ne_true
      rintro ⟨gs', s', hundef, _⟩
      rw [genLdstPair, hv, if_neg Bool.false_ne_true, hgen] at hundef
      cases hundef
  | some i =>
    cases hv : insn.isVector with
    | true =>
      obtain ⟨gs, hgen, hout⟩ := outcome_simd mmu s h hv harch
      exact right_iff (archPair_vector hv harch) (by rw [genLdstPair, if_pos hv, hgen]) hout
    | false =>
      obtain ⟨hi, signed, rfl⟩ := archPair_general hv harch
      obtain ⟨gs, hmem, hgen⟩ := genPair_mem h
      have hout := doesPair_of_mem mmu s h hmem
      refine right_iff hi (by rw [genLdstPair, hv, if_neg Bool.false_ne_true, hgen]) ?_
      exact hout.mono fun s' hs' => ⟨hs'.cpu, hs'.loads, hs'.stores⟩

/-- A pair is translated as the architecture says if it is allocated or of vector registers, and in
every state in which its new base is an address and the words of `LDPSW` are not negative. -/
theorem pair_follows_architecture (insn : Insn) (h : insn.IsPair) (mmu : Mmu) (s : JitState) :
    (insn.ldstClass = some .pair ∧ PairRight mmu insn s ∧ PathsAgree mmu insn s) ↔
      PairFits mmu insn s := by
  rw [and_iff_right (ldstClass_pair h), and_iff_left (pathsAgree h), pairRight_iff h]

def onePage : Mmu where
  translate page _ := if page = 1 then some 0 else none

def pairStart : JitState where
  cpu := { regs := fun _ => 0x1800, sp := 0x1800, pc := 0, nzcv := 0, fp := fun _ => 0,
           tlsPtr := 0, segfaultAddr := 0, segfaultWasWrite := false, trapno := .none, cycle := 0 }
  mem := fun _ => 0xff
  addr := 0
  tmp := 0
  valueAddr := 0
  value := fun _ => 0
  valuePtr := 0

/-- `stp x29, x30, [sp, #-16]!` -/
theorem pair_follows_architecture_push :
    Insn.ldstClass 0xa9bf7bfd = some .pair ∧ PairRight onePage 0xa9bf7bfd pairStart ∧
      PathsAgree onePage 0xa9bf7bfd pairStart :=
  (pair_follows_architecture 0xa9bf7bfd (by unfold Insn.IsPair; decide) onePage
    pairStart).mpr fun _ => ⟨fun _ _ => by decide, nofun, nofun⟩

/-- `ldpsw x0, x1, [sp]` of words with all bits set -/
theorem pair_not_sign_extended :
    ¬ ∀ (insn : Insn) (mmu : Mmu) (s : JitState), insn.IsPair →
      insn.ldstClass = some .pair ∧ PairRight mmu insn s ∧ PathsAgree mmu insn s := by
  intro hall
  have hpair : Insn.IsPair 0x694007e0 := by unfold Insn.IsPair; decide
  have hright := (hall 0x694007e0 onePage pairStart hpair).2.1
  have harch : archPair 0x694007e0 =
      some ⟨false, 2, true, true, .offset, 0, 0, 1, 31⟩ := by decide
  rw [pairRight_iff hpair, PairFits, harch] at hright
  have hfits := hright (by unfold Mmu.Mapped; decide)
  have hdef : PairInsn.Defines ⟨false, 2, true, true, .offset, 0, 0, 1, 31⟩ 0 := by
    unfold PairInsn.Defines PairInsn.writesBack
    decide
  exact absurd (hfits.first rfl hdef) (by decide)

end ShellBox
