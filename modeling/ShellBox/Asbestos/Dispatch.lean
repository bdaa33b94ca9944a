import Mathlib

/-!
# The dispatch loop

`cpu_step_to_interrupt` runs the guest block by block until an interrupt. The block at the program
counter is taken from a cache of the thread, from the hash table of the address space, or is
compiled. Two caches hold pointers to blocks: the one in the TLB, and in the thread's frame the
one for returns. Both are cleared when the generation of the address space's code has moved, which
every invalidation does.

What a block does, with the blocks chained to it, and what the kernel does at an interrupt are
parameters, over a type for the state of the guest outside the registers. Both say what happened
meanwhile to the code, to the mapping and to the poke flag, by this thread or by others.
-/

namespace ShellBox

open Function

/-- The reasons to leave the loop, and `INT_JIT_CRASH`. -/
inductive Interrupt where
  | none | gpf | timer | syscall | jitCrash | prebuiltRet
  | other (n : ℕ)
  deriving DecidableEq, Repr

/-- `struct cpu_state`, without the exclusive monitor. -/
structure JitCpu where
  regs : ℕ → BitVec 64
  sp : BitVec 64
  pc : BitVec 64
  nzcv : BitVec 32
  fp : ℕ → BitVec 128
  tlsPtr : BitVec 64
  segfaultAddr : BitVec 64
  segfaultWasWrite : Bool
  trapno : Interrupt
  cycle : ℕ

/-! ### The code of an address space -/

/-- `struct fiber_block`, told apart by a number of its own. -/
structure CodeBlock where
  id : ℕ
  addr : BitVec 64
  deriving DecidableEq

/-- `struct asbestos`: the blocks that can be found, those waiting to be freed, and the
generation. A block that waits to be freed cannot be found. -/
structure CodeCache where
  hash : List CodeBlock
  jetsam : List CodeBlock
  nextId : ℕ
  invalidateGen : ℕ
  live : ∀ b ∈ hash, b ∉ jetsam
  fresh : ∀ b, b ∈ hash ∨ b ∈ jetsam → b.id < nextId

/-- What happens to the code: a block is compiled where there is none, or the blocks on some pages
are invalidated. -/
inductive CodeAct where
  | compile (addr : BitVec 64)
  | invalidate (onPages : CodeBlock → Bool)

namespace CodeCache

/-- `fiber_lookup`. -/
def lookup (c : CodeCache) (addr : BitVec 64) : Option CodeBlock :=
  c.hash.find? fun b => b.addr = addr

def newBlock (c : CodeCache) (addr : BitVec 64) : CodeBlock := { id := c.nextId, addr }

lemma newBlock_notMem (c : CodeCache) (addr : BitVec 64) : c.newBlock addr ∉ c.jetsam := by
  intro hb
  exact Nat.lt_irrefl _ (c.fresh _ (Or.inr hb))

/-- `fiber_insert` of a new block. -/
def insert (c : CodeCache) (addr : BitVec 64) : CodeCache where
  hash := c.newBlock addr :: c.hash
  jetsam := c.jetsam
  nextId := c.nextId + 1
  invalidateGen := c.invalidateGen
  live := by
    intro b hb
    rcases List.mem_cons.1 hb with rfl | hb
    · exact c.newBlock_notMem addr
    · exact c.live b hb
  fresh := by
    rintro b (hb | hb)
    · rcases List.mem_cons.1 hb with rfl | hb
      · exact Nat.lt_succ_self _
      · exact Nat.lt_succ_of_lt (c.fresh b (Or.inl hb))
    · exact Nat.lt_succ_of_lt (c.fresh b (Or.inr hb))

/-- `asbestos_invalidate_range`. -/
def invalidate (c : CodeCache) (onPages : CodeBlock → Bool) : CodeCache :=
  if c.hash.any onPages then
    { hash := c.hash.filter fun b => !onPages b
      jetsam := c.hash.filter onPages ++ c.jetsam
      nextId := c.nextId
      invalidateGen := c.invalidateGen + 1
      live := by
        intro b hb hj
        obtain ⟨hmem, hoff⟩ := List.mem_filter.1 hb
        rcases List.mem_append.1 hj with hj | hj
        · simp [(List.mem_filter.1 hj).2] at hoff
        · exact c.live b hmem hj
      fresh := by
        rintro b (hb | hb)
        · exact c.fresh b (Or.inl (List.mem_filter.1 hb).1)
        · rcases List.mem_append.1 hb with hb | hb
          · exact c.fresh b (Or.inl (List.mem_filter.1 hb).1)
          · exact c.fresh b (Or.inr hb) }
  else c

def act (c : CodeCache) : CodeAct → CodeCache
  | .compile addr       => if (c.lookup addr).isSome then c else c.insert addr
  | .invalidate onPages => c.invalidate onPages

def acts (c : CodeCache) (as : List CodeAct) : CodeCache := as.foldl act c

lemma lookup_notMem {c : CodeCache} {addr : BitVec 64} {b : CodeBlock}
    (hb : c.lookup addr = some b) : b ∉ c.jetsam :=
  c.live b (List.mem_of_find?_eq_some hb)

/-- The code before and after something happened: no generation is used twice. -/
structure Older (c c' : CodeCache) : Prop where
  gen : c.invalidateGen ≤ c'.invalidateGen
  jetsam : c.invalidateGen = c'.invalidateGen → c'.jetsam = c.jetsam

lemma Older.refl (c : CodeCache) : c.Older c := ⟨le_rfl, fun _ => rfl⟩

lemma Older.trans {c₁ c₂ c₃ : CodeCache} (h : c₁.Older c₂) (h' : c₂.Older c₃) : c₁.Older c₃ := by
  refine ⟨h.gen.trans h'.gen, fun heq => ?_⟩
  have h₁₂ : c₁.invalidateGen = c₂.invalidateGen := le_antisymm h.gen (heq ▸ h'.gen)
  rw [h'.jetsam (h₁₂ ▸ heq), h.jetsam h₁₂]

lemma older_insert (c : CodeCache) (addr : BitVec 64) : c.Older (c.insert addr) :=
  ⟨le_rfl, fun _ => rfl⟩

lemma older_invalidate (c : CodeCache) (onPages : CodeBlock → Bool) :
    c.Older (c.invalidate onPages) := by
  unfold invalidate
  split_ifs
  · exact ⟨Nat.le_succ _, fun heq => absurd heq (Nat.ne_of_lt (Nat.lt_succ_self _))⟩
  · exact .refl c

lemma older_acts (c : CodeCache) (as : List CodeAct) : c.Older (c.acts as) := by
  induction as generalizing c with
  | nil => exact .refl c
  | cons a as ih =>
    refine Older.trans ?_ (ih (c.act a))
    cases a with
    | compile addr =>
      simp only [act]
      split_ifs
      · exact .refl c
      · exact older_insert c addr
    | invalidate onPages => exact older_invalidate c onPages

end CodeCache

/-! ### The machine around a thread -/

variable {γ : Type*}

structure Machine (γ : Type*) where
  guest : γ
  code : CodeCache
  /-- `mmu->changes`. -/
  changes : ℕ
  /-- `*poked_ptr`. -/
  poked : Bool

structure Happened (γ : Type*) where
  guest : γ
  code : List CodeAct := []
  changes : ℕ := 0
  poked : Bool := false

def Machine.after (m : Machine γ) (x : Happened γ) : Machine γ where
  guest := x.guest
  code := m.code.acts x.code
  changes := m.changes + x.changes
  poked := m.poked || x.poked

abbrev BlockPtrs := ℕ → Option CodeBlock

def BlockPtrs.empty : BlockPtrs := fun _ => none

/-- `struct fiber_frame`. -/
structure FiberFrame where
  cpu : JitCpu
  retCache : BlockPtrs

/-- `struct tlb`, its part for code. -/
structure CodeTlb where
  memChanges : ℕ
  blockCache : BlockPtrs
  blockCacheGen : ℕ
  frame : Option FiberFrame

structure JitHost (γ : Type*) where
  /-- Whether a frame can be allocated. -/
  calloc : γ → Bool
  /-- `fiber_block_compile_protected`. -/
  compile : BitVec 64 → γ → Option (Happened γ)
  /-- `fiber_enter`: it may end in the middle of a chain of blocks, and fills the cache for
  returns. -/
  enter : CodeBlock → FiberFrame → γ → Interrupt × FiberFrame × Happened γ
  /-- No gadget raises `INT_PREBUILT_RET`. -/
  enter_ne : ∀ b f g, (enter b f g).1 ≠ .prebuiltRet
  /-- `handle_interrupt` on the registers it is given. -/
  handleInterrupt : Interrupt → JitCpu → γ → JitCpu × Happened γ

/-! ### `cpu_step_to_interrupt` -/

def fiberCacheHash (ip : BitVec 64) : ℕ := (ip ^^^ (ip >>> 12)).toNat % 4096

structure Dispatch (γ : Type*) where
  frame : FiberFrame
  blockCache : BlockPtrs
  blockCacheGen : ℕ
  memChanges : ℕ
  crashRetryCount : ℕ
  machine : Machine γ

namespace Dispatch

def clearCaches (d : Dispatch γ) : Dispatch γ :=
  { d with
    blockCache := .empty
    blockCacheGen := d.machine.code.invalidateGen
    frame := { d.frame with retCache := .empty } }

def syncCaches (d : Dispatch γ) : Dispatch γ :=
  if d.blockCacheGen ≠ d.machine.code.invalidateGen then d.clearCaches else d

/-- `tlb_flush`, with the caches. -/
def flush (d : Dispatch γ) : Dispatch γ :=
  { d with memChanges := d.machine.changes }.clearCaches

def findBlock (h : JitHost γ) (d : Dispatch γ) : Option (CodeBlock × Dispatch γ) :=
  let ip := d.frame.cpu.pc
  let hit := (d.blockCache (fiberCacheHash ip)).filter fun b => b.addr = ip
  match hit with
  | some b => some (b, d)
  | none   =>
    match d.machine.code.lookup ip with
    | some b =>
      some (b, { d with blockCache := update d.blockCache (fiberCacheHash ip) (some b) })
    | none   =>
      match h.compile ip d.machine.guest with
      | none   => none
      | some x =>
        let m := d.machine.after x
        let b := m.code.newBlock ip
        some (b, { d with
          blockCache := update d.blockCache (fiberCacheHash ip) (some b)
          machine := { m with code := m.code.insert ip } })

/-- `INT_JIT_CRASH` is tried again, fifteen times in a row. -/
def retryCrash (i : Interrupt) (d : Dispatch γ) : Interrupt × Dispatch γ :=
  if i = .jitCrash then
    if 16 ≤ d.crashRetryCount + 1 then (.gpf, { d.flush with crashRetryCount := 0 })
    else (.none, { d.flush with crashRetryCount := d.crashRetryCount + 1 })
  else (i, { d with crashRetryCount := 0 })

def checkTimer (i : Interrupt) (d : Dispatch γ) : Interrupt × Dispatch γ :=
  if i ≠ .none then (i, d)
  else if d.machine.poked then (.timer, { d with machine := { d.machine with poked := false } })
  else
    let cycle := d.frame.cpu.cycle + 1
    let cpu := { d.frame.cpu with cycle }
    (if cycle % 1024 = 0 then .timer else .none, { d with frame := { d.frame with cpu } })

def enterBlock (h : JitHost γ) (b : CodeBlock) (d : Dispatch γ) : Interrupt × Dispatch γ :=
  let r := h.enter b d.frame d.machine.guest
  let entered := retryCrash r.1 { d with frame := r.2.1, machine := d.machine.after r.2.2 }
  let d' := entered.2
  checkTimer entered.1 (if d'.memChanges ≠ d'.machine.changes then d'.flush else d')

def fault (d : Dispatch γ) (addr pc : BitVec 64) : Dispatch γ :=
  { d with
    frame := { d.frame with
      cpu := { d.frame.cpu with segfaultAddr := addr, segfaultWasWrite := false, pc } } }

/-- The loop, for at most `fuel` rounds. `stop` is the test for the return of a nested call, which
the source makes at this place. -/
def loop (h : JitHost γ) (stop : JitCpu → Bool) : ℕ → Dispatch γ → Option (Interrupt × Dispatch γ)
  | 0, _ => none
  | fuel + 1, d =>
    let d := d.syncCaches
    let ip := d.frame.cpu.pc
    if ip &&& 0xffff000000000000 ≠ 0 then some (.gpf, d.fault ip (ip &&& 0xffffffffffff))
    else if ip = 0 then some (.gpf, d.fault 0 0)
    else if stop d.frame.cpu then some (.prebuiltRet, d)
    else match findBlock h d with
      | none        => some (.gpf, d.fault 0 ip)
      | some (b, d) =>
        let r := enterBlock h b d
        if r.1 = .none then loop h stop fuel r.2 else some r

end Dispatch

def CodeTlb.syncCache (tlb : CodeTlb) (code : CodeCache) : CodeTlb :=
  if tlb.blockCacheGen ≠ code.invalidateGen then
    { tlb with blockCache := .empty, blockCacheGen := code.invalidateGen }
  else tlb

/-- The cache for returns when the loop is begun: the one of the thread's frame, unless blocks were
invalidated, or of a new frame. -/
def CodeTlb.takeFrame (h : JitHost γ) (tlb : CodeTlb) (m : Machine γ) : Option BlockPtrs :=
  match tlb.frame with
  | none       => if h.calloc m.guest then some .empty else none
  | some frame =>
    some (if tlb.blockCacheGen ≠ m.code.invalidateGen then .empty else frame.retCache)

def Dispatch.start (cpu : JitCpu) (retCache : BlockPtrs) (tlb : CodeTlb) (m : Machine γ) :
    Dispatch γ where
  frame := { cpu, retCache }
  blockCache := tlb.blockCache
  blockCacheGen := tlb.blockCacheGen
  memChanges := tlb.memChanges
  crashRetryCount := 0
  machine := m

def Dispatch.tlb (d : Dispatch γ) : CodeTlb where
  memChanges := d.memChanges
  blockCache := d.blockCache
  blockCacheGen := d.blockCacheGen
  frame := some d.frame

def cpuStepToInterrupt (h : JitHost γ) (stop : JitCpu → Bool) (fuel : ℕ) (cpu : JitCpu)
    (tlb : CodeTlb) (m : Machine γ) : Option (Interrupt × JitCpu × CodeTlb × Machine γ) :=
  match tlb.takeFrame h m with
  | none          => some (.gpf, cpu, tlb.syncCache m.code, m)
  | some retCache =>
    match Dispatch.loop h stop fuel (.start cpu retCache (tlb.syncCache m.code) m) with
    | none        => none
    | some (i, d) => some (i, d.frame.cpu, d.tlb, d.machine)

end ShellBox
