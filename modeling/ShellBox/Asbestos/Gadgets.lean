import ShellBox.Asbestos.GuestAccess
import ShellBox.Asbestos.Insn
import ShellBox.Asbestos.Registers

/-!
# Gadgets of loads and stores

The translator emits gadgets, each with a word of parameters, and they run one after the other. The
gadgets here prepare the address of an access, and write an address back to its base.
-/

namespace ShellBox

/-- A gadget with its parameters; `none` is the exit with a fault. -/
abbrev Gadget := Mmu → JitState → Option JitState

def execGadgets (mmu : Mmu) (gs : List Gadget) (s : JitState) : Option JitState :=
  gs.foldlM (fun s g => g mmu s) s

inductive LdstCode where
  | gadgets (gs : List Gadget)
  /-- `gen_interrupt(state, INT_UNDEFINED)` after some gadgets. -/
  | undefined (gs : List Gadget)

/-! ### Addresses -/

/-- `calc_addr_imm`, whose address is kept for `writeback_addr`. -/
def gadgetCalcAddrImm (w : BitVec 64) : Gadget := fun _ s =>
  let addr := guestAddr (s.cpu.slot (w.extractLsb' 0 5).toNat + w.sshiftRight 8)
  some { s with addr, valueAddr := addr }

def gadgetCalcAddrBase (w : BitVec 64) : Gadget := fun _ s =>
  some { s with addr := s.cpu.slot (w.extractLsb' 0 5).toNat }

def gadgetUpdateBase (w : BitVec 64) : Gadget := fun _ s =>
  let rn := (w.extractLsb' 0 5).toNat
  some { s with cpu := s.cpu.setSlot rn (guestAddr (s.cpu.slot rn + w.sshiftRight 8)) }

def gadgetWritebackAddr (w : BitVec 64) : Gadget := fun _ s =>
  some { s with cpu := s.cpu.setSlot (w.extractLsb' 0 5).toNat s.valueAddr }

/-! ### Accesses -/

/-- A load of `n` bytes at `_addr` into registers. -/
def readAccess (n : ℕ) (put : JitCpu → (ℕ → UInt8) → JitCpu) : Gadget := fun mmu s => do
  let (s', bytes) ← s.readPrep mmu n
  return { s' with cpu := put s'.cpu bytes }

/-- `mov _addr, x24` at the end of a gadget. -/
def restoreAddr (g : Gadget) : Gadget := fun mmu s => do
  let s' ← g mmu s
  return { s' with addr := s.addr }

/-! ### The tests of `gen_ldst` -/

inductive LdstClass where
  | lse
  | casp64
  | casp32
  | cas
  | literal
  | unsignedImm
  | regOffset
  | pair
  | prePostImm
  | exclusive
  | multiple
  | multiplePost
  | single
  | singlePost
  deriving DecidableEq

/-- Which part of `gen_ldst` takes an instruction; the tests are tried in this order. -/
def Insn.ldstClass (insn : Insn) : Option LdstClass :=
  if insn &&& 0x3f200c00 = 0x38200000 then some .lse
  else if insn &&& 0xffa07c00 = 0x48207c00 then some .casp64
  else if insn &&& 0xffa07c00 = 0x08207c00 then some .casp32
  else if insn &&& 0x3fa07c00 = 0x08a07c00 then some .cas
  else if insn &&& 0x3b000000 = 0x18000000 then some .literal
  else if insn &&& 0x3b000000 = 0x39000000 then some .unsignedImm
  else if insn &&& 0x3b200c00 = 0x38200800 then some .regOffset
  else if insn &&& 0x3a000000 = 0x28000000 then some .pair
  else if insn &&& 0x3b200000 = 0x38000000 then some .prePostImm
  else if insn &&& 0x3f000000 = 0x08000000 then some .exclusive
  else if insn &&& 0xbfbf0000 = 0x0c000000 then some .multiple
  else if insn &&& 0xbfa00000 = 0x0c800000 then some .multiplePost
  else if insn &&& 0xbf800000 = 0x0d000000 then some .single
  else if insn &&& 0xbf800000 = 0x0d800000 then some .singlePost
  else none

variable {mmu : Mmu} {s : JitState} {gs : List Gadget} {g : Gadget}

@[simp] lemma execGadgets_nil : execGadgets mmu [] s = some s := rfl

@[simp] lemma execGadgets_cons :
    execGadgets mmu (g :: gs) s = (g mmu s).bind (execGadgets mmu gs) := rfl

section Params

variable {rn : BitVec 5} {off : BitVec 64} {n : ℕ}

lemma extract_base_offset (rn : BitVec 5) (h : SignedIn n off) (hpos : 0 < n) (hn : n ≤ 56) :
    (packAt 0 rn ||| off <<< 8).extractLsb' 0 5 = rn ∧
      (packAt 0 rn ||| off <<< 8).sshiftRight 8 = off := by
  constructor
  · have hoff : (off <<< 8).extractLsb' 0 5 = 0 := by
      have hpack := extract_packAt_below (k := 8) off (by decide : 0 + 5 ≤ 8)
      rwa [packAt, BitVec.setWidth_eq] at hpack
    rw [BitVec.extractLsb'_or, hoff, extract_packAt rn (by decide), BitVec.setWidth_eq]
    exact BitVec.or_zero
  · exact sshiftRight_pack (sshiftRight_packAt rn (by decide) (by decide)) h hpos (by omega)

@[simp] lemma extract_base : (packAt 0 rn).extractLsb' 0 5 = rn := by
  rw [extract_packAt rn (by decide), BitVec.setWidth_eq]

lemma gadgetCalcAddrImm_eq (h : SignedIn n off) (hpos : 0 < n) (hn : n ≤ 56) :
    gadgetCalcAddrImm (packAt 0 rn ||| off <<< 8) mmu s =
      some { s with addr := guestAddr (s.cpu.slot rn.toNat + off),
                    valueAddr := guestAddr (s.cpu.slot rn.toNat + off) } := by
  obtain ⟨hrn, hoff⟩ := extract_base_offset rn h hpos hn
  rw [gadgetCalcAddrImm, hrn, hoff]

lemma gadgetCalcAddrBase_eq :
    gadgetCalcAddrBase (packAt 0 rn) mmu s = some { s with addr := s.cpu.slot rn.toNat } := by
  rw [gadgetCalcAddrBase, extract_base]

lemma gadgetUpdateBase_eq (h : SignedIn n off) (hpos : 0 < n) (hn : n ≤ 56) :
    gadgetUpdateBase (packAt 0 rn ||| off <<< 8) mmu s = some { s with
      cpu := s.cpu.setSlot rn.toNat (guestAddr (s.cpu.slot rn.toNat + off)) } := by
  obtain ⟨hrn, hoff⟩ := extract_base_offset rn h hpos hn
  rw [gadgetUpdateBase, hrn, hoff]

lemma gadgetWritebackAddr_eq :
    gadgetWritebackAddr (packAt 0 rn) mmu s =
      some { s with cpu := s.cpu.setSlot rn.toNat s.valueAddr } := by
  rw [gadgetWritebackAddr, extract_base]

end Params

/-! ### Addresses modulo 48 bits -/

section

variable {kind : AccessType} {a b : BitVec 64} {m : HostMem} {n : ℕ}

lemma guestPtr_congr (h : a.toNat % 2 ^ 48 = b.toNat % 2 ^ 48) :
    mmu.guestPtr kind a = mmu.guestPtr kind b := by
  have hpage : a.toNat / pageSize % 2 ^ 36 = b.toNat / pageSize % 2 ^ 36 := by
    rw [pageSize]
    omega
  have hoff : a.toNat % pageSize = b.toNat % pageSize := by
    rw [pageSize]
    omega
  rw [Mmu.guestPtr, Mmu.guestPtr, hpage, hoff]

lemma guestPtr_guestAddr (i : ℕ) :
    mmu.guestPtr kind (guestAddr a + .ofNat 64 i) = mmu.guestPtr kind (a + .ofNat 64 i) := by
  apply guestPtr_congr
  rw [BitVec.toNat_add, BitVec.toNat_add, toNat_guestAddr]
  omega

lemma mapped_guestAddr : mmu.Mapped kind (guestAddr a) n ↔ mmu.Mapped kind a n :=
  forall₂_congr fun i _ => by rw [guestPtr_guestAddr]

lemma guestBytes_guestAddr : mmu.guestBytes m (guestAddr a) = mmu.guestBytes m a :=
  funext fun i => by rw [Mmu.guestBytes, guestPtr_guestAddr, ← Mmu.guestBytes]

lemma guestWrite_guestAddr {bytes : ℕ → UInt8} :
    mmu.guestWrite m (guestAddr a) bytes n = mmu.guestWrite m a bytes n := by
  induction n with
  | zero => rfl
  | succ n ih => rw [Mmu.guestWrite, Mmu.guestWrite, ih, guestPtr_guestAddr]

end

/-! ### Outcomes -/

/-- A gadget that faults if its access is not mapped, and otherwise leaves such a state. -/
def Outcome (r : Option JitState) (mapped : Prop) (post : JitState → Prop) : Prop :=
  (mapped → ∃ s', r = some s' ∧ post s') ∧ (¬ mapped → r = none)

section

variable {r : Option JitState} {mapped : Prop} {post post' : JitState → Prop} {n : ℕ}
  {a : BitVec 64}

lemma Outcome.mono (h : Outcome r mapped post) (hpost : ∀ s', post s' → post' s') :
    Outcome r mapped post' :=
  ⟨fun hm => (h.1 hm).imp fun s' hs' => ⟨hs'.1, hpost s' hs'.2⟩, h.2⟩

lemma Outcome.bind {k : JitState → Option JitState} {f : JitState → JitState}
    (h : Outcome r mapped post) (hk : ∀ s', k s' = some (f s'))
    (hpost : ∀ s', post s' → post' (f s')) : Outcome (r.bind k) mapped post' := by
  constructor
  · intro hm
    obtain ⟨s', rfl, hs'⟩ := h.1 hm
    exact ⟨f s', hk s', hpost s' hs'⟩
  · intro hm
    rw [h.2 hm]
    rfl

lemma Outcome.restoreAddr (h : Outcome (g mmu s) mapped post)
    (hpost : ∀ s', post s' → post' { s' with addr := s.addr }) :
    Outcome (restoreAddr g mmu s) mapped post' :=
  h.bind (fun _ => rfl) hpost

lemma outcome_readAccess {put : JitCpu → (ℕ → UInt8) → JitCpu} (hn : 0 < n) (hpage : n ≤ pageSize)
    (ha : guestAddr s.addr = guestAddr a)
    (hput : ∀ c b b', (∀ i < n, b i = b' i) → put c b = put c b') :
    Outcome (readAccess n put mmu s) (mmu.Mapped .read a n) fun s' =>
      s'.cpu = put s.cpu (mmu.guestBytes s.mem a) ∧ s'.mem = s.mem ∧
      (s'.valueAddr = s.valueAddr ∨ s'.valueAddr = s.addr) := by
  rw [← mapped_guestAddr, ← ha, mapped_guestAddr, ← guestBytes_guestAddr (a := a), ← ha,
    guestBytes_guestAddr]
  constructor
  · intro hm
    obtain ⟨s', bytes, hread, hs'⟩ := readPrep_of_mapped hn hpage hm
    refine ⟨{ s' with cpu := put s'.cpu bytes }, by rw [readAccess, hread]; rfl, ?_, hs'.mem,
      hs'.valueAddr⟩
    rw [← hs'.cpu]
    exact hput _ _ _ hs'.bytes
  · intro hm
    rw [readAccess, readPrep_of_not_mapped hn hpage hm]
    rfl

lemma outcome_writeAccess {stores : List HostStore} (hn : 0 < n) (hpage : n ≤ pageSize)
    (hfill : Fills stores n) (ha : guestAddr s.addr = guestAddr a) :
    Outcome (s.writeAccess mmu n stores) (mmu.Mapped .write a n) fun s' =>
      s'.cpu = s.cpu ∧ mmu.guestWrite s.mem a (storedBytes stores) n = some s'.mem ∧
      (s'.valueAddr = s.valueAddr ∨ s'.valueAddr = s.addr) := by
  rw [← mapped_guestAddr, ← ha, mapped_guestAddr]
  constructor
  · intro hm
    obtain ⟨s', hwrite, hs'⟩ := writeAccess_of_mapped hn hpage hfill hm
    refine ⟨s', hwrite, hs'.cpu, ?_, hs'.valueAddr⟩
    rw [← guestWrite_guestAddr, ← ha, guestWrite_guestAddr]
    exact hs'.mem
  · exact writeAccess_of_not_mapped hn hpage

end

end ShellBox
