import ShellBox.Kernel.SignalFrame
import ShellBox.Logic.Loop

/-!
# Handlers that interrupt handlers

A handler is called with a frame below the stack pointer, or at the top of the alternate stack,
and returns with `rt_sigreturn`, which reads the frame that the stack pointer is at. Between the
two the guest runs, and may be interrupted again.

If each frame fits on its stack and the code that is interrupted runs below the frame of its own
handler, no frame is written over another one.
-/

namespace ShellBox

open Function

/-- `struct sigaction_` -/
structure Sigaction where
  handler : BitVec 64
  mask : BitVec 64
  noDefer : Bool
  resetHand : Bool
  onStack : Bool
  restart : Bool

structure LiveFrame where
  addr : BitVec 64
  cpu : Arm64Cpu
  sigmask : BitVec 64
  altstack : BitVec 64
  altstackSize : BitVec 32
  onAlt : Bool

/-- The part of a task and of its address space that delivery and return read and write. `live`
is a record of the frames for the proofs; nothing reads it. -/
structure SignalState where
  cpu : Arm64Cpu
  exclAddr : BitVec 64
  segfaultAddr : BitVec 64
  mem : ℕ → UInt8
  /-- With the saved mask of `sigsuspend` put back, as `receive_signals` does first. -/
  blocked : BitVec 64
  action : ℕ → Sigaction
  altstack : BitVec 64
  altstackSize : BitVec 32
  /-- `syscall_restart_pc` and `syscall_restart_arg0`, while `syscall_restartable` is set. -/
  restart : Option (BitVec 64 × BitVec 64)
  live : List LiveFrame

/-- Where `__kernel_rt_sigreturn` is, and where a frame can be written. -/
structure FrameHost where
  restorer : BitVec 64
  writable : BitVec 64 → Bool

/-- `sig_mask` -/
def sigBit (sig : ℕ) : BitVec 64 := 1#64 <<< (sig - 1)

/-- `~UNBLOCKABLE_MASK` -/
def blockableMask : BitVec 64 := ~~~(sigBit 9 ||| sigBit 19)

/-- The bytes after `retcode`: `mov`, `nr_rt_sigreturn`, `int80` and a byte of padding. -/
def rtRetcode : BitVec 64 := 0x0080cd000000adb8

namespace SignalState

def isOnAltstack (s : SignalState) (sp : BitVec 64) : Bool :=
  s.altstack < sp ∧ sp ≤ s.altstack + s.altstackSize.setWidth 64

/-- `altstack_to_user`, the flags -/
def altstackFlags (s : SignalState) : BitVec 32 :=
  (if s.altstack = 0 then 2 else 0) ||| (if s.isOnAltstack s.cpu.sp then 1 else 0)

/-- `setup_rt_sigframe` and `setup_sigcontext`, and the two pointers that are filled in once the
place of the frame is known -/
def setupFrame (h : FrameHost) (s : SignalState) (sig : ℕ) (info : BitVec 1024)
    (sp : BitVec 64) : RtSigframe where
  restorer := h.restorer
  sig := BitVec.ofNat 32 sig
  pinfo := sp + BitVec.ofNat 64 infoOffset
  puc := sp + BitVec.ofNat 64 ucOffset
  info := info
  flags := 0
  link := 0
  stack := s.altstack
  stackFlags := s.altstackFlags
  stackSize := s.altstackSize.setWidth 64
  sigmask := s.blocked
  faultAddress := s.segfaultAddr
  regs := s.cpu.regs
  sp := s.cpu.sp
  pc := s.cpu.pc
  pstate := s.cpu.nzcv.setWidth 64
  magic := fpsimdMagic
  size := 528
  fpsr := s.cpu.fpsr
  fpcr := s.cpu.fpcr
  vregs := s.cpu.fp
  retcode := rtRetcode

/-- The `SA_RESTART` rewind. -/
def restartSyscall (s : SignalState) (sig : ℕ) : SignalState :=
  match s.restart with
  | some (pc, arg0) =>
    if (s.action sig).restart ∧ s.cpu.pc = pc then
      let cpu := { s.cpu with pc := s.cpu.pc - 4, regs := update s.cpu.regs 0 arg0 }
      { s with cpu := cpu, restart := none }
    else s
  | none => s

def stackTop (s : SignalState) (sig : ℕ) : BitVec 64 :=
  if (s.action sig).onStack ∧ s.altstack ≠ 0 ∧ ¬ s.isOnAltstack s.cpu.sp then
    s.altstack + s.altstackSize.setWidth 64
  else s.cpu.sp

/-- `sp -= frame_size; sp &= ~0xf` -/
def frameSp (s : SignalState) (sig : ℕ) : BitVec 64 :=
  BitVec.ofNat 64 ((s.stackTop sig - BitVec.ofNat 64 rtSigframeSize).toNat / 16 * 16)

def frameOnAlt (s : SignalState) (sig : ℕ) : Bool :=
  s.altstack ≠ 0 ∧ ((s.action sig).onStack ∨ s.isOnAltstack s.cpu.sp)

/-- `receive_signal` from `setup_rt_sigframe` on. If the frame cannot be written the task waits
for a lock it holds, for ever. -/
def pushFrame (h : FrameHost) (s : SignalState) (sig : ℕ) (info : BitVec 1024) : SignalState :=
  let sp := s.frameSp sig
  let action := s.action sig
  let regs := update (update (update (update s.cpu.regs 0 (BitVec.ofNat 64 sig))
    1 (sp + BitVec.ofNat 64 infoOffset)) 2 (sp + BitVec.ofNat 64 ucOffset)) 30 h.restorer
  if h.writable sp then
    { s with
      cpu := { s.cpu with pc := action.handler, sp := sp, regs := regs }
      exclAddr := BitVec.allOnes 64
      mem := (s.setupFrame h sig info sp).write s.mem sp.toNat
      blocked := s.blocked ||| (if action.noDefer then 0 else sigBit sig) ||| action.mask
      action := if action.resetHand then update s.action sig ⟨0, 0, false, false, false, false⟩
        else s.action
      live := ⟨sp, s.cpu, s.blocked, s.altstack, s.altstackSize, s.frameOnAlt sig⟩ :: s.live }
  else s

/-- `receive_signal` for a signal that has a handler. -/
def receiveSignal (h : FrameHost) (s : SignalState) (sig : ℕ) (info : BitVec 1024) : SignalState :=
  (s.restartSyscall sig).pushFrame h sig info

def restoreSigcontext (F : RtSigframe) (cpu : Arm64Cpu) : Arm64Cpu :=
  let cpu := { cpu with regs := F.regs, sp := F.sp, pc := F.pc, nzcv := F.pstate.setWidth 32 }
  if F.magic = fpsimdMagic then { cpu with fpsr := F.fpsr, fpcr := F.fpcr, fp := F.vregs } else cpu

/-- `sys_rt_sigreturn`; the system call it is has cleared `syscall_restartable`. -/
def rtSigreturn (s : SignalState) : SignalState :=
  let F := RtSigframe.read s.mem s.cpu.sp.toNat
  let onAlt := s.isOnAltstack s.cpu.sp
  let s := { s with cpu := restoreSigcontext F s.cpu, restart := none, live := s.live.tail }
  let s := if ¬ onAlt ∧ minsigstksz ≤ F.stackSize.toNat then
    { s with altstack := F.stack, altstackSize := F.stackSize.setWidth 32 } else s
  { s with blocked := F.sigmask &&& blockableMask }

/-- `sys_sigaltstack` with a new stack. -/
def sigaltstack (s : SignalState) (disable : Bool) (stack size : BitVec 64) : SignalState :=
  if s.isOnAltstack s.cpu.sp then s
  else if disable then { s with altstack := 0 }
  else if size.toNat < minsigstksz then s
  else { s with altstack := stack, altstackSize := size.setWidth 32 }

end SignalState

inductive SignalEvent
  | deliver (sig : ℕ) (info : BitVec 1024)
  /-- Guest code and the other system calls: all but the alternate stack may change. -/
  | code (s : SignalState)
  | sigaltstack (disable : Bool) (stack size : BitVec 64)
  | rtSigreturn

def signalStep (h : FrameHost) (s : SignalState) : SignalEvent → SignalState
  | .deliver sig info => s.receiveSignal h sig info
  | .code s' => { s' with altstack := s.altstack, altstackSize := s.altstackSize, live := s.live }
  | .sigaltstack disable stack size => s.sigaltstack disable stack size
  | .rtSigreturn => s.rtSigreturn

/-! ### Stacks -/

/-- The alternate stack lies in the address space and outside the normal stack from `lo` to `hi`. -/
def AltApart (lo hi : ℕ) (altstack : BitVec 64) (size : BitVec 32) : Prop :=
  altstack ≠ 0 → altstack.toNat + size.toNat < 2 ^ 64 ∧
    (altstack.toNat + size.toNat ≤ lo ∨ hi ≤ altstack.toNat)

namespace SignalState

def onAlt (s : SignalState) : Bool := s.altstack ≠ 0 ∧ s.isOnAltstack s.cpu.sp

def OnOwnStack (hi : ℕ) (s : SignalState) : Prop :=
  match s.live with
  | [] => s.onAlt = true ∨ s.cpu.sp.toNat ≤ hi
  | f :: _ => s.onAlt = f.onAlt ∧ s.cpu.sp.toNat ≤ f.addr.toNat

/-- The frame ends where its stack is free, and starts above the bottom of that stack. -/
def Fits (lo : ℕ) (s : SignalState) (sig : ℕ) : Prop :=
  (if s.frameOnAlt sig then s.altstack.toNat else lo) ≤ (s.frameSp sig).toNat ∧
    (s.frameSp sig).toNat + rtSigframeSize ≤ (s.stackTop sig).toNat

end SignalState

/-- What is assumed of an event: a frame that is pushed fits on its stack and can be written, guest
code leaves the bytes of the frames alone, and a handler returns with the stack pointer at its
frame. -/
def SignalEvent.Orderly (h : FrameHost) (lo hi : ℕ) (s : SignalState) : SignalEvent → Prop
  | .deliver sig _ => s.OnOwnStack hi ∧ s.Fits lo sig ∧ h.writable (s.frameSp sig) = true
  | .code s' => ∀ f ∈ s.live, SameBytes s.mem s'.mem f.addr.toNat rtSigframeSize
  | .sigaltstack disable stack size => s.OnOwnStack hi ∧
      AltApart lo hi (s.sigaltstack disable stack size).altstack
        (s.sigaltstack disable stack size).altstackSize
  | .rtSigreturn => s.cpu.sp ∈ s.live.head?.map LiveFrame.addr

namespace LiveFrame

structure Stored (m : ℕ → UInt8) (f : LiveFrame) : Prop where
  cpu : ∀ cpu, SignalState.restoreSigcontext (RtSigframe.read m f.addr.toNat) cpu = f.cpu
  sigmask : (RtSigframe.read m f.addr.toNat).sigmask = f.sigmask
  stack : (RtSigframe.read m f.addr.toNat).stack = f.altstack
  stackSize : (RtSigframe.read m f.addr.toNat).stackSize = f.altstackSize.setWidth 64

structure Placed (lo hi : ℕ) (altstack : BitVec 64) (size : BitVec 32) (f : LiveFrame) :
    Prop where
  apart : AltApart lo hi f.altstack f.altstackSize
  alt : f.onAlt = true → f.altstack = altstack ∧ f.altstackSize = size ∧ altstack ≠ 0 ∧
    altstack.toNat ≤ f.addr.toNat ∧
    f.addr.toNat + rtSigframeSize ≤ altstack.toNat + size.toNat
  normal : f.onAlt = false → lo ≤ f.addr.toNat ∧ f.addr.toNat + rtSigframeSize ≤ hi

structure Newer (f g : LiveFrame) : Prop where
  alt : g.onAlt = true → f.onAlt = true
  below : f.onAlt = g.onAlt → f.addr.toNat + rtSigframeSize ≤ g.addr.toNat

lemma Stored.congr {m m' : ℕ → UInt8} {f : LiveFrame} (hf : f.Stored m)
    (hm : SameBytes m m' f.addr.toNat rtSigframeSize) : f.Stored m' := by
  have hread := RtSigframe.read_congr hm
  exact ⟨hread ▸ hf.cpu, hread ▸ hf.sigmask, hread ▸ hf.stack, hread ▸ hf.stackSize⟩

lemma Newer.apart {lo hi : ℕ} {altstack : BitVec 64} {size : BitVec 32} {f g : LiveFrame}
    (h : f.Newer g) (hapart : AltApart lo hi altstack size) (hf : f.Placed lo hi altstack size)
    (hg : g.Placed lo hi altstack size) :
    f.addr.toNat + rtSigframeSize ≤ g.addr.toNat ∨
      g.addr.toNat + rtSigframeSize ≤ f.addr.toNat := by
  by_cases heq : f.onAlt = g.onAlt
  · exact Or.inl (h.below heq)
  · have hga : g.onAlt = false := by
      by_contra hga
      rw [Bool.not_eq_false] at hga
      exact heq ((h.alt hga).trans hga.symm)
    have hfa : f.onAlt = true := by
      rw [hga] at heq
      simpa using heq
    obtain ⟨-, -, hne, hfl, hfr⟩ := hf.alt hfa
    obtain ⟨hgl, hgr⟩ := hg.normal hga
    rcases (hapart hne).2 with hlo | hhi
    · exact Or.inl (by omega)
    · exact Or.inr (by omega)

end LiveFrame

namespace SignalState

/-- The frames that have not been returned from are intact, and none reaches into another. -/
structure Inv (lo hi : ℕ) (s : SignalState) : Prop where
  apart : AltApart lo hi s.altstack s.altstackSize
  stored : ∀ f ∈ s.live, f.Stored s.mem
  placed : ∀ f ∈ s.live, f.Placed lo hi s.altstack s.altstackSize
  newer : s.live.Pairwise LiveFrame.Newer

variable {h : FrameHost} {lo hi : ℕ} {s : SignalState}

lemma Inv.onAlt_false (hs : s.Inv lo hi) (hown : s.OnOwnStack hi) (halt : s.onAlt = false) :
    ∀ g ∈ s.live, g.onAlt = false := by
  intro g hg
  unfold OnOwnStack at hown
  cases hl : s.live with
  | nil => simp [hl] at hg
  | cons f rest =>
    simp only [hl] at hown
    have hf : f.onAlt = false := hown.1 ▸ halt
    have hnewer := hs.newer
    rw [hl] at hg hnewer
    rcases List.mem_cons.mp hg with rfl | hg
    · exact hf
    · by_contra hne
      rw [Bool.not_eq_false] at hne
      have hfalse := ((List.pairwise_cons.mp hnewer).1 g hg).alt hne
      simp [hf] at hfalse

lemma Inv.sp_le (hs : s.Inv lo hi) (hown : s.OnOwnStack hi) {g : LiveFrame} (hg : g ∈ s.live)
    (halt : s.onAlt = g.onAlt) : s.cpu.sp.toNat ≤ g.addr.toNat := by
  unfold OnOwnStack at hown
  cases hl : s.live with
  | nil => simp [hl] at hg
  | cons f rest =>
    simp only [hl] at hown
    have hnewer := hs.newer
    rw [hl] at hg hnewer
    rcases List.mem_cons.mp hg with rfl | hg
    · exact hown.2
    · have hle := ((List.pairwise_cons.mp hnewer).1 g hg).below (hown.1.symm.trans halt)
      omega

lemma isOnAltstack_iff (happart : AltApart lo hi s.altstack s.altstackSize) (hne : s.altstack ≠ 0)
    (sp : BitVec 64) : s.isOnAltstack sp = true ↔ s.altstack.toNat < sp.toNat ∧
      sp.toNat ≤ s.altstack.toNat + s.altstackSize.toNat := by
  obtain ⟨hlt, -⟩ := happart hne
  have htop : (s.altstack + s.altstackSize.setWidth 64).toNat =
      s.altstack.toNat + s.altstackSize.toNat := by
    rw [BitVec.toNat_add, BitVec.toNat_setWidth_of_le (by norm_num), Nat.mod_eq_of_lt hlt]
  simp only [isOnAltstack, decide_eq_true_eq, BitVec.lt_def, BitVec.le_def, htop]

lemma stackTop_alt (happart : AltApart lo hi s.altstack s.altstackSize) {sig : ℕ}
    (halt : s.frameOnAlt sig = true) :
    s.altstack ≠ 0 ∧
      (s.stackTop sig).toNat ≤ s.altstack.toNat + s.altstackSize.toNat := by
  simp only [frameOnAlt, decide_eq_true_eq, ne_eq] at halt
  obtain ⟨hne, hor⟩ := halt
  refine ⟨hne, ?_⟩
  obtain ⟨hlt, -⟩ := happart hne
  unfold stackTop
  split_ifs with hswitch
  · rw [BitVec.toNat_add, BitVec.toNat_setWidth_of_le (by norm_num), Nat.mod_eq_of_lt hlt]
  · have hon : s.isOnAltstack s.cpu.sp = true := by
      by_contra hoff
      exact hswitch ⟨hor.resolve_right hoff, hne, hoff⟩
    exact ((isOnAltstack_iff happart hne _).mp hon).2

lemma stackTop_own {sig : ℕ} (halt : s.frameOnAlt sig = s.onAlt) : s.stackTop sig = s.cpu.sp := by
  unfold stackTop
  split_ifs with hswitch
  · have hon : s.frameOnAlt sig = true := by simpa [frameOnAlt, hswitch.1] using hswitch.2.1
    rw [halt] at hon
    simp only [onAlt, decide_eq_true_eq] at hon
    exact absurd hon.2 hswitch.2.2
  · rfl

lemma onAlt_le (s : SignalState) (sig : ℕ) (halt : s.onAlt = true) : s.frameOnAlt sig = true := by
  simp only [onAlt, frameOnAlt, decide_eq_true_eq] at halt ⊢
  exact ⟨halt.1, Or.inr halt.2⟩

lemma Inv.newer_push (hs : s.Inv lo hi) (hown : s.OnOwnStack hi) {sig : ℕ} (hfits : s.Fits lo sig)
    {f : LiveFrame} (haddr : f.addr = s.frameSp sig) (hon : f.onAlt = s.frameOnAlt sig) :
    ∀ g ∈ s.live, f.Newer g := by
  intro g hg
  constructor
  · intro hga
    rw [hon]
    apply onAlt_le
    by_contra halt
    rw [Bool.not_eq_true] at halt
    have hfalse := hs.onAlt_false hown halt g hg
    simp [hga] at hfalse
  · intro heq
    rw [haddr]
    have hsame : s.onAlt = g.onAlt := by
      by_cases halt : s.onAlt = true
      · rw [halt, ← heq, hon, onAlt_le s sig halt]
      · rw [Bool.not_eq_true] at halt
        rw [halt, hs.onAlt_false hown halt g hg]
    have htop : s.stackTop sig = s.cpu.sp := stackTop_own (by rw [hsame, ← heq, hon])
    have hle := hs.sp_le hown hg hsame
    have hend := hfits.2
    rw [htop] at hend
    omega

lemma Inv.placed_push (hs : s.Inv lo hi) (hown : s.OnOwnStack hi) {sig : ℕ} (hfits : s.Fits lo sig)
    {f : LiveFrame} (haddr : f.addr = s.frameSp sig) (hon : f.onAlt = s.frameOnAlt sig)
    (halt : f.altstack = s.altstack) (hsize : f.altstackSize = s.altstackSize) :
    f.Placed lo hi s.altstack s.altstackSize := by
  obtain ⟨hbottom, hend⟩ := hfits
  refine ⟨halt ▸ hsize ▸ hs.apart, fun hfa => ?_, fun hfa => ?_⟩
  · rw [hon] at hfa
    obtain ⟨hne, htop⟩ := stackTop_alt hs.apart hfa
    rw [if_pos hfa] at hbottom
    rw [haddr]
    exact ⟨halt, hsize, hne, hbottom, by omega⟩
  · rw [hon] at hfa
    rw [hfa, if_neg Bool.false_ne_true] at hbottom
    have hcode : s.onAlt = false := by
      by_contra hcode
      rw [Bool.not_eq_false] at hcode
      simp [onAlt_le s sig hcode] at hfa
    rw [stackTop_own (hfa.trans hcode.symm)] at hend
    have hsp : s.cpu.sp.toNat ≤ hi := by
      unfold OnOwnStack at hown
      cases hl : s.live with
      | nil => simpa [hl, hcode] using hown
      | cons g rest =>
        simp only [hl] at hown
        have hg := hs.placed g (by simp [hl])
        have hnormal := hg.normal (hown.1 ▸ hcode)
        omega
    rw [haddr]
    exact ⟨hbottom, by omega⟩

lemma restartSyscall_eq (s : SignalState) (sig : ℕ) : ∃ pc regs restart,
    s.restartSyscall sig = { s with cpu := { s.cpu with pc := pc, regs := regs }, restart } := by
  unfold restartSyscall
  split
  · split_ifs
    · exact ⟨_, _, _, rfl⟩
    · exact ⟨s.cpu.pc, s.cpu.regs, s.restart, rfl⟩
  · exact ⟨s.cpu.pc, s.cpu.regs, s.restart, rfl⟩

lemma stored_setupFrame (h : FrameHost) (s : SignalState) (sig : ℕ) (info : BitVec 1024)
    (sp : BitVec 64) (m : ℕ → UInt8) :
    LiveFrame.Stored ((s.setupFrame h sig info sp).write m sp.toNat)
      ⟨sp, s.cpu, s.blocked, s.altstack, s.altstackSize, s.frameOnAlt sig⟩ := by
  have hread := RtSigframe.read_write (s.setupFrame h sig info sp) m sp.toNat
  constructor
  · intro cpu
    rw [hread]
    simp [restoreSigcontext, setupFrame]
  · rw [hread]
    rfl
  · rw [hread]
    rfl
  · rw [hread]
    rfl

lemma inv_pushFrame (hs : s.Inv lo hi) {sig : ℕ} (info : BitVec 1024) (hown : s.OnOwnStack hi)
    (hfits : s.Fits lo sig) (hwrite : h.writable (s.frameSp sig) = true) :
    (s.pushFrame h sig info).Inv lo hi := by
  let f : LiveFrame := ⟨s.frameSp sig, s.cpu, s.blocked, s.altstack, s.altstackSize, s.frameOnAlt sig⟩
  have hplaced : f.Placed lo hi s.altstack s.altstackSize := hs.placed_push hown hfits rfl rfl rfl rfl
  have hnewer : ∀ g ∈ s.live, f.Newer g := hs.newer_push hown hfits rfl rfl
  unfold pushFrame
  simp only [hwrite, if_true]
  refine ⟨hs.apart, ?_, ?_, List.pairwise_cons.mpr ⟨hnewer, hs.newer⟩⟩
  · intro g hg
    rcases List.mem_cons.mp hg with rfl | hg
    · exact stored_setupFrame h s sig info (s.frameSp sig) s.mem
    · refine (hs.stored g hg).congr fun i hi => ?_
      have hapart := (hnewer g hg).apart hs.apart hplaced (hs.placed g hg)
      have haddr : f.addr = s.frameSp sig := rfl
      rw [haddr] at hapart
      refine (RtSigframe.write_outside _ s.mem ?_).symm
      rcases hapart with hle | hle
      · exact Or.inr (by omega)
      · exact Or.inl (by omega)
  · intro g hg
    rcases List.mem_cons.mp hg with rfl | hg
    · exact hplaced
    · exact hs.placed g hg

lemma inv_receiveSignal (hs : s.Inv lo hi) {sig : ℕ} (info : BitVec 1024)
    (hown : s.OnOwnStack hi) (hfits : s.Fits lo sig) (hwrite : h.writable (s.frameSp sig) = true) :
    (s.receiveSignal h sig info).Inv lo hi := by
  obtain ⟨pc, regs, restart, heq⟩ := restartSyscall_eq s sig
  unfold receiveSignal
  rw [heq]
  let s' : SignalState := { s with cpu := { s.cpu with pc := pc, regs := regs }, restart }
  have hs' : s'.Inv lo hi := ⟨hs.apart, hs.stored, hs.placed, hs.newer⟩
  exact inv_pushFrame hs' info hown hfits hwrite

lemma live_receiveSignal {sig : ℕ} (info : BitVec 1024)
    (hwrite : h.writable (s.frameSp sig) = true) :
    (s.receiveSignal h sig info).live = ⟨s.frameSp sig, (s.restartSyscall sig).cpu, s.blocked,
      s.altstack, s.altstackSize, s.frameOnAlt sig⟩ :: s.live := by
  obtain ⟨pc, regs, restart, heq⟩ := restartSyscall_eq s sig
  unfold receiveSignal
  rw [heq]
  unfold pushFrame
  exact congrArg live (if_pos hwrite)

lemma rtSigreturn_eq (s : SignalState) : s.rtSigreturn =
    let F := RtSigframe.read s.mem s.cpu.sp.toNat
    { s with
      cpu := restoreSigcontext F s.cpu
      blocked := F.sigmask &&& blockableMask
      altstack := if ¬ s.isOnAltstack s.cpu.sp ∧ minsigstksz ≤ F.stackSize.toNat then F.stack
        else s.altstack
      altstackSize := if ¬ s.isOnAltstack s.cpu.sp ∧ minsigstksz ≤ F.stackSize.toNat then
        F.stackSize.setWidth 32 else s.altstackSize
      restart := none
      live := s.live.tail } := by
  unfold rtSigreturn
  simp only []
  split_ifs <;> rfl

lemma rtSigreturn_fields (s : SignalState) : s.rtSigreturn.mem = s.mem ∧
    s.rtSigreturn.live = s.live.tail ∧
    s.rtSigreturn.cpu = restoreSigcontext (RtSigframe.read s.mem s.cpu.sp.toNat) s.cpu ∧
    s.rtSigreturn.blocked =
      (RtSigframe.read s.mem s.cpu.sp.toNat).sigmask &&& blockableMask := by
  rw [rtSigreturn_eq]
  exact ⟨rfl, rfl, rfl, rfl⟩

lemma rtSigreturn_spec (hs : s.Inv lo hi) {f : LiveFrame} {rest : List LiveFrame}
    (hlive : s.live = f :: rest) (hsp : s.cpu.sp = f.addr) :
    s.rtSigreturn.Inv lo hi ∧ s.rtSigreturn.live = rest ∧ s.rtSigreturn.cpu = f.cpu ∧
      s.rtSigreturn.blocked = f.sigmask &&& blockableMask := by
  have hf : f ∈ s.live := hlive ▸ List.mem_cons_self
  obtain ⟨hcpu, hmask, hstack, hsize⟩ := hs.stored f hf
  have hplaced := hs.placed f hf
  rw [← hsp] at hcpu hmask hstack hsize
  have hnewer := hs.newer
  rw [hlive] at hnewer
  obtain ⟨hnew, hrest⟩ := List.pairwise_cons.mp hnewer
  have hmem : ∀ g ∈ rest, g ∈ s.live := fun g hg => hlive ▸ List.mem_cons_of_mem f hg
  have halt : s.rtSigreturn.altstack = s.altstack ∧
      s.rtSigreturn.altstackSize = s.altstackSize ∨
      s.rtSigreturn.altstack = f.altstack ∧ s.rtSigreturn.altstackSize = f.altstackSize := by
    rw [rtSigreturn_eq]
    simp only [hstack, hsize]
    split_ifs
    · exact Or.inr ⟨rfl, by simp⟩
    · exact Or.inl ⟨rfl, rfl⟩
  obtain ⟨hm, hl, hc, hb⟩ := rtSigreturn_fields s
  have hl : s.rtSigreturn.live = rest := by rw [hl, hlive, List.tail_cons]
  refine ⟨⟨?_, ?_, ?_, ?_⟩, hl, hc.trans (hcpu s.cpu), by rw [hb, hmask]⟩
  · rcases halt with ⟨ha, hz⟩ | ⟨ha, hz⟩
    · rw [ha, hz]
      exact hs.apart
    · rw [ha, hz]
      exact hplaced.apart
  · rw [hm, hl]
    exact fun g hg => hs.stored g (hmem g hg)
  · rw [hl]
    intro g hg
    have hg' := hs.placed g (hmem g hg)
    refine ⟨hg'.apart, fun hga => ?_, hg'.normal⟩
    -- a frame on the alternate stack keeps the stack from changing
    obtain ⟨hfa, hfz, -⟩ := hplaced.alt ((hnew g hg).alt hga)
    have hsame : s.rtSigreturn.altstack = s.altstack ∧
        s.rtSigreturn.altstackSize = s.altstackSize := by
      rcases halt with halt | ⟨ha, hz⟩
      · exact halt
      · exact ⟨ha.trans hfa, hz.trans hfz⟩
    rw [hsame.1, hsame.2]
    exact hg'.alt hga
  · rw [hl]
    exact hrest

lemma inv_sigaltstack (hs : s.Inv lo hi) {disable : Bool} {stack size : BitVec 64}
    (hown : s.OnOwnStack hi)
    (happart : AltApart lo hi (s.sigaltstack disable stack size).altstack
      (s.sigaltstack disable stack size).altstackSize) :
    (s.sigaltstack disable stack size).Inv lo hi := by
  by_cases hon : s.isOnAltstack s.cpu.sp = true
  · have hsame : s.sigaltstack disable stack size = s := by
      unfold sigaltstack
      rw [if_pos hon]
    rwa [hsame]
  · have halt : s.onAlt = false := by simp [onAlt, hon]
    have hnormal := hs.onAlt_false hown halt
    have hkept : (s.sigaltstack disable stack size).live = s.live ∧
        (s.sigaltstack disable stack size).mem = s.mem := by
      unfold sigaltstack
      split_ifs <;> exact ⟨rfl, rfl⟩
    refine ⟨happart, ?_, ?_, ?_⟩
    · rw [hkept.1, hkept.2]
      exact hs.stored
    · rw [hkept.1]
      intro g hg
      have hg' := hs.placed g hg
      refine ⟨hg'.apart, fun hga => ?_, hg'.normal⟩
      simp [hnormal g hg] at hga
    · rw [hkept.1]
      exact hs.newer

end SignalState

lemma inv_signalStep {h : FrameHost} {lo hi : ℕ} {s : SignalState} {e : SignalEvent}
    (he : e.Orderly h lo hi s) (hs : s.Inv lo hi) : (signalStep h s e).Inv lo hi := by
  cases e with
  | deliver sig info =>
    obtain ⟨hown, hfits, hwrite⟩ := he
    exact SignalState.inv_receiveSignal hs info hown hfits hwrite
  | code s' => exact ⟨hs.apart, fun f hf => (hs.stored f hf).congr (he f hf), hs.placed, hs.newer⟩
  | sigaltstack disable stack size =>
    obtain ⟨hown, happart⟩ := he
    exact SignalState.inv_sigaltstack hs hown happart
  | rtSigreturn =>
    obtain ⟨f, hf, hsp⟩ := Option.map_eq_some_iff.mp he
    obtain ⟨rest, hlive⟩ := List.head?_eq_some_iff.mp hf
    exact (SignalState.rtSigreturn_spec hs hlive hsp.symm).1

lemma live_signalStep {h : FrameHost} {lo hi : ℕ} {s : SignalState} {e : SignalEvent}
    (he : e.Orderly h lo hi s) {below : List LiveFrame} (hlive : below <:+ s.live)
    (hdeep : e = .rtSigreturn → below.length < s.live.length) :
    below <:+ (signalStep h s e).live := by
  cases e with
  | deliver sig info =>
    simp only [signalStep]
    rw [SignalState.live_receiveSignal info he.2.2]
    exact hlive.trans (List.suffix_cons _ _)
  | code s' => exact hlive
  | sigaltstack disable stack size =>
    have hkept : (s.sigaltstack disable stack size).live = s.live := by
      unfold SignalState.sigaltstack
      split_ifs <;> rfl
    simp only [signalStep]
    rwa [hkept]
  | rtSigreturn =>
    obtain ⟨-, hl, -, -⟩ := SignalState.rtSigreturn_fields s
    simp only [signalStep]
    rw [hl]
    have hlt := hdeep rfl
    cases hs : s.live with
    | nil => simp [hs] at hlt
    | cons f rest =>
      rw [hs] at hlive hlt
      rcases List.suffix_cons_iff.mp hlive with rfl | hsuffix
      · simp at hlt
      · exact hsuffix

/-- What a handler owes to the frames: the bytes stay as they are, and it returns to its own. -/
def SignalEvent.Tidy (h : FrameHost) (s : SignalState) : SignalEvent → Prop
  | .deliver sig _ => h.writable (s.frameSp sig) = true
  | .code s' => ∀ f ∈ s.live, SameBytes s.mem s'.mem f.addr.toNat rtSigframeSize
  | .sigaltstack _ _ _ => True
  | .rtSigreturn => s.cpu.sp ∈ s.live.head?.map LiveFrame.addr

def HandlerRun (h : FrameHost) (cond : SignalState → SignalEvent → Prop) (s : SignalState)
    (body : List SignalEvent) (depth : ℕ) : Prop :=
  RunAll (signalStep h) (fun t e => cond t e ∧ (e = .rtSigreturn → depth < t.live.length)) s body ∧
    (run (signalStep h) s body).live.length = depth ∧
    cond (run (signalStep h) s body) .rtSigreturn

def afterHandler (h : FrameHost) (s : SignalState) (sig : ℕ) (info : BitVec 1024)
    (body : List SignalEvent) : SignalState :=
  signalStep h (run (signalStep h) (signalStep h s (.deliver sig info)) body) .rtSigreturn

/-- After the last return the registers and the mask are those before the first delivery, if the
frames fit on their stacks. A system call that is restarted has been rewound first. -/
theorem signal_frames_roundtrip {h : FrameHost} {lo hi : ℕ} {s : SignalState} {sig : ℕ}
    {info : BitVec 1024} {body : List SignalEvent} (hs : s.Inv lo hi)
    (hfirst : (SignalEvent.deliver sig info).Orderly h lo hi s)
    (hbody : HandlerRun h (fun t e => e.Orderly h lo hi t) (signalStep h s (.deliver sig info)) body
      (s.live.length + 1)) :
    (afterHandler h s sig info body).cpu = (s.restartSyscall sig).cpu ∧
      (afterHandler h s sig info body).blocked = s.blocked &&& blockableMask := by
  obtain ⟨hrun, hlen, hlast⟩ := hbody
  let f : LiveFrame := ⟨s.frameSp sig, (s.restartSyscall sig).cpu, s.blocked, s.altstack,
    s.altstackSize, s.frameOnAlt sig⟩
  have hlive : (signalStep h s (.deliver sig info)).live = f :: s.live :=
    SignalState.live_receiveSignal info hfirst.2.2
  have hinv := inv_signalStep hfirst hs
  have hall : (run (signalStep h) (signalStep h s (.deliver sig info)) body).Inv lo hi ∧
      f :: s.live <:+ (run (signalStep h) (signalStep h s (.deliver sig info)) body).live := by
    refine run_invariant (P := fun t => t.Inv lo hi ∧ f :: s.live <:+ t.live) ?_ hrun
      ⟨hinv, hlive ▸ List.suffix_rfl⟩
    rintro t e ⟨he, hdeep⟩ ⟨ht, hsuffix⟩
    exact ⟨inv_signalStep he ht, live_signalStep he hsuffix hdeep⟩
  unfold afterHandler
  generalize run (signalStep h) (signalStep h s (.deliver sig info)) body = t at hlen hlast hall ⊢
  obtain ⟨ht, hsuffix⟩ := hall
  have heq : t.live = f :: s.live := (hsuffix.eq_of_length (by simp [hlen])).symm
  have hsp : t.cpu.sp = f.addr := by
    simpa [SignalEvent.Orderly, heq, eq_comm] using hlast
  obtain ⟨-, -, hcpu, hblocked⟩ := SignalState.rtSigreturn_spec ht heq hsp
  exact ⟨hcpu, hblocked⟩

/-- A task whose signals all have the handler at `0x5000`. -/
def handledState (sp altstack : BitVec 64) (size : BitVec 32) (onStack restart : Bool) :
    SignalState where
  cpu := ⟨fun _ => 1, sp, 0x404, 0, 0, 0, fun _ => 2⟩
  exclAddr := 0
  segfaultAddr := 0
  mem := fun _ => 0
  blocked := 1
  action := fun _ => ⟨0x5000, 0, false, false, onStack, restart⟩
  altstack := altstack
  altstackSize := size
  restart := some (0x404, 7)
  live := []

def nestingHost : FrameHost := ⟨0x7000, fun _ => true⟩

def nestedState : SignalState := handledState 0x20000 0x8000 0x4000 true true

lemma inv_nestedState : nestedState.Inv 0x10000 0x20000 where
  apart := fun _ => by decide +kernel
  stored := fun _ hf => absurd hf List.not_mem_nil
  placed := fun _ hf => absurd hf List.not_mem_nil
  newer := List.Pairwise.nil

/-- A handler on the alternate stack, interrupted by another one. -/
theorem signal_frames_roundtrip_nested :
    let body : List SignalEvent := [.deliver 12 0, .rtSigreturn]
    (afterHandler nestingHost nestedState 10 0 body).cpu = (nestedState.restartSyscall 10).cpu ∧
      (afterHandler nestingHost nestedState 10 0 body).blocked =
        nestedState.blocked &&& blockableMask := by
  refine signal_frames_roundtrip inv_nestedState ⟨?_, ?_, rfl⟩
    ⟨⟨⟨⟨⟨?_, ?_⟩, ?_, rfl⟩, ?_⟩, ⟨?_, ?_⟩, trivial⟩, ?_, ?_⟩
  · exact Or.inr (by decide +kernel)
  · exact ⟨by decide +kernel, by decide +kernel⟩
  · decide +kernel
  · decide +kernel
  · exact ⟨by decide +kernel, by decide +kernel⟩
  · exact fun he => nomatch he
  · exact Option.map_eq_some_iff.mpr ⟨_, rfl, by decide +kernel⟩
  · exact fun _ => by decide +kernel
  · decide +kernel
  · exact Option.map_eq_some_iff.mpr ⟨_, rfl, by decide +kernel⟩

/-- The registers and the mask come back whenever the handlers are tidy. -/
def FramesRoundTrip (h : FrameHost) (s : SignalState) (sig : ℕ) (body : List SignalEvent) : Prop :=
  h.writable (s.frameSp sig) = true →
    HandlerRun h (fun t e => e.Tidy h t) (signalStep h s (.deliver sig 0)) body
      (s.live.length + 1) →
    (afterHandler h s sig 0 body).cpu = s.cpu ∧
      (afterHandler h s sig 0 body).blocked = s.blocked &&& blockableMask

/-- A system call that is restarted is gone back to, not returned from. And three handlers do not
fit on an alternate stack of 6144 bytes: the third is not seen to be on it, starts at its top again
and takes the place of the first. -/
theorem signal_frames_lost :
    ¬ FramesRoundTrip nestingHost (handledState 0x20000 0 0 false true) 10 [] ∧
      ¬ FramesRoundTrip nestingHost (handledState 0x20000 0x8000 0x1800 true false) 10
        [.deliver 12 0, .deliver 14 0, .rtSigreturn, .rtSigreturn] := by
  constructor
  · intro hround
    have hrun := hround rfl ⟨trivial, rfl, ?_⟩
    · have hpc := congrArg Arm64Cpu.pc hrun.1
      revert hpc
      decide +kernel
    · exact Option.map_eq_some_iff.mpr ⟨_, rfl, by decide +kernel⟩
  · intro hround
    have hrun := hround rfl ⟨⟨⟨rfl, ?_⟩, ⟨rfl, ?_⟩, ⟨?_, ?_⟩, ⟨?_, ?_⟩, trivial⟩, ?_, ?_⟩
    · have hpc := congrArg Arm64Cpu.pc hrun.1
      revert hpc
      decide +kernel
    · exact fun he => nomatch he
    · exact fun he => nomatch he
    · exact Option.map_eq_some_iff.mpr ⟨_, rfl, by decide +kernel⟩
    · exact fun _ => by decide +kernel
    · exact Option.map_eq_some_iff.mpr ⟨_, rfl, by decide +kernel⟩
    · exact fun _ => by decide +kernel
    · decide +kernel
    · change _ ∈ Option.map _ _
      decide +kernel

end ShellBox
