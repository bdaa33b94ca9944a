import ShellBox.Asbestos.Dispatch

/-!
# Calls from prebuilt gadgets

A prebuilt gadget runs natively and calls guest functions with `prebuilt_call`, which runs the
dispatch loop on a copy of the registers, in a frame of its own, until the callee returns to an
address that stands for the gadget. The interrupts of the callee are serviced on the registers the
task had saved when it entered the outer loop, the copy is written back in part, and the cache for
returns of the suspended frame is not looked at.

A call is transparent exactly when none of that is seen: when no interrupt of the callee reads or
changes registers, when the callee leaves alone what is not written back and does not look at its
return address, and when no block is invalidated that the suspended frame points to.
-/

namespace ShellBox

open Function

variable {γ : Type*} {h : JitHost γ}

/-- A call under way: the callee's registers, the caches of its thread, the machine, and
`current->cpu`. -/
structure CallState (γ : Type*) where
  cpu : JitCpu
  tlb : CodeTlb
  machine : Machine γ
  saved : JitCpu

/-- An interrupt serviced as `prebuilt_call` does: on the registers the task has saved. -/
def serviceSaved (h : JitHost γ) (i : Interrupt) (s : CallState γ) : CallState γ :=
  let r := h.handleInterrupt i s.saved s.machine.guest
  { s with saved := r.1, machine := s.machine.after r.2 }

/-- An interrupt serviced on the callee's own registers. The registers the task has saved are
those that `serviceSaved` leaves, so that both can be compared. -/
def serviceOwn (h : JitHost γ) (i : Interrupt) (s : CallState γ) : CallState γ :=
  let r := h.handleInterrupt i s.cpu s.machine.guest
  { s with
    cpu := r.1
    saved := (h.handleInterrupt i s.saved s.machine.guest).1
    machine := s.machine.after r.2 }

def callStep (h : JitHost γ) (stop : JitCpu → Bool) (fuel : ℕ) (s : CallState γ) :
    Option (Interrupt × CallState γ) :=
  (cpuStepToInterrupt h stop fuel s.cpu s.tlb s.machine).map fun (i, cpu, tlb, machine) =>
    (i, { s with cpu := if i = .prebuiltRet then cpu else { cpu with trapno := i },
                 tlb, machine })

/-- The loop of `prebuilt_call`, for a way to service interrupts. -/
def callLoop (h : JitHost γ) (stop : JitCpu → Bool)
    (service : Interrupt → CallState γ → CallState γ) : ℕ → CallState γ → Option (CallState γ)
  | 0, _ => none
  | fuel + 1, s =>
    match callStep h stop fuel s with
    | none        => none
    | some (i, s) => if i = .prebuiltRet then some s else callLoop h stop service fuel (service i s)

def prebuiltSentinel : BitVec 64 := 0x0000fffffffff000

def atSentinel (c : JitCpu) : Bool := c.pc = prebuiltSentinel

/-- The callee's registers at its first instruction, with this return address. -/
def JitCpu.enterAt (c : JitCpu) (target ra : BitVec 64) : JitCpu :=
  { c with pc := target, regs := update c.regs 30 ra }

/-- What a prebuilt gadget calls with: the registers of its frame, the TLB with that frame, the
machine, and the registers the task has saved. -/
structure PrebuiltCaller (γ : Type*) where
  cpu : JitCpu
  tlb : CodeTlb
  machine : Machine γ
  saved : JitCpu
  target : BitVec 64

namespace PrebuiltCaller

def nested (c : PrebuiltCaller γ) (ra : BitVec 64) : CallState γ where
  cpu := c.cpu.enterAt c.target ra
  tlb := { c.tlb with frame := none }
  machine := c.machine
  saved := c.saved

/-- The registers that are written back at the end: `x0` to `x17` and the stack pointer. -/
def copyBack (c : PrebuiltCaller γ) (callee : JitCpu) : JitCpu :=
  { c.cpu with
    regs := fun i => if i < 18 then callee.regs i else c.cpu.regs i
    sp := callee.sp }

/-- `prebuilt_call`, for at most `fuel` rounds. The result is the state of the caller after it. -/
def prebuiltCall (h : JitHost γ) (fuel : ℕ) (c : PrebuiltCaller γ) :
    Option (BitVec 64 × PrebuiltCaller γ) :=
  (callLoop h atSentinel (serviceSaved h) fuel (c.nested prebuiltSentinel)).map fun s =>
    (s.cpu.regs 0,
      { c with
        cpu := c.copyBack s.cpu
        tlb := { s.tlb with frame := c.tlb.frame }
        machine := s.machine
        saved := s.saved })

/-! ### What the call should do -/

/-- The execution of the call by the guest: the callee returns to the link register, with the stack
pointer it was called with, and its interrupts are serviced on its own registers. -/
def guestCall (h : JitHost γ) (fuel : ℕ) (c : PrebuiltCaller γ) : Option (CallState γ) :=
  let ra := c.cpu.regs 30
  callLoop h (fun cpu => cpu.pc = ra &&& 0xffffffffffff ∧ cpu.sp = c.cpu.sp) (serviceOwn h) fuel
    (c.nested ra)

end PrebuiltCaller

/-- The registers a caller sees after a call: arguments and results, the stack pointer, the vector
registers, the flags and the TLS pointer. -/
structure SameAfterCall (c c' : JitCpu) : Prop where
  regs : ∀ i < 18, c.regs i = c'.regs i
  sp : c.sp = c'.sp
  fp : c.fp = c'.fp
  nzcv : c.nzcv = c'.nzcv
  tlsPtr : c.tlsPtr = c'.tlsPtr

def AllServiced (h : JitHost γ) (stop : JitCpu → Bool)
    (service : Interrupt → CallState γ → CallState γ) (P : Interrupt → CallState γ → Prop) :
    ℕ → CallState γ → Prop
  | 0, _ => True
  | fuel + 1, s =>
    match callStep h stop fuel s with
    | none        => True
    | some (i, s) => i = .prebuiltRet ∨ (P i s ∧ AllServiced h stop service P fuel (service i s))

/-- A cache points to no block that was invalidated between these states of the code. -/
def KeepsOut (before after : CodeCache) (cache : BlockPtrs) : Prop :=
  ∀ k b, cache k = some b → b ∈ after.jetsam → b ∈ before.jetsam

/-- A call that went as the guest's execution of it would have gone: each interrupt was serviced as
on the callee's own registers, the caller has the registers that the guest would have, and neither
its cache of blocks nor that for returns points to a block that was invalidated meanwhile. -/
structure Transparent (h : JitHost γ) (fuel : ℕ) (c c' : PrebuiltCaller γ) : Prop where
  serviced : AllServiced h atSentinel (serviceSaved h)
    (fun i s => serviceSaved h i s = serviceOwn h i s) fuel (c.nested prebuiltSentinel)
  registers : ∃ n g, c.guestCall h n = some g ∧ SameAfterCall c'.cpu g.cpu
  blockCache : KeepsOut c.machine.code c'.machine.code c'.tlb.blockCache
  retCache : ∀ f, c'.tlb.frame = some f → KeepsOut c.machine.code c'.machine.code f.retCache

/-! ### When it does -/

/-- The kernel changes none of the callee's registers, and does to the machine what it does on the
registers the task has saved. -/
structure LeavesRegisters (h : JitHost γ) (i : Interrupt) (s : CallState γ) : Prop where
  cpu : (h.handleInterrupt i s.cpu s.machine.guest).1 = s.cpu
  machine : s.machine.after (h.handleInterrupt i s.saved s.machine.guest).2 =
    s.machine.after (h.handleInterrupt i s.cpu s.machine.guest).2

/-- What a callee may do in a nested call, said of its execution with the interrupts serviced on
its own registers: it meets no interrupt that reads or changes registers; the registers that are
written back do not depend on its return address, and the others that a caller sees are at the
return what they were at the call; and no block is invalidated that the cache for returns of the
suspended frame points to. -/
structure Unseen (h : JitHost γ) (fuel : ℕ) (c : PrebuiltCaller γ) : Prop where
  interrupts : AllServiced h atSentinel (serviceOwn h) (LeavesRegisters h) fuel
    (c.nested prebuiltSentinel)
  registers : ∃ s n g,
    callLoop h atSentinel (serviceOwn h) fuel (c.nested prebuiltSentinel) = some s ∧
    c.guestCall h n = some g ∧ (∀ i < 18, s.cpu.regs i = g.cpu.regs i) ∧ s.cpu.sp = g.cpu.sp ∧
    c.cpu.fp = g.cpu.fp ∧ c.cpu.nzcv = g.cpu.nzcv ∧ c.cpu.tlsPtr = g.cpu.tlsPtr
  retCache : ∀ s f,
    callLoop h atSentinel (serviceOwn h) fuel (c.nested prebuiltSentinel) = some s →
    c.tlb.frame = some f → KeepsOut c.machine.code s.machine.code f.retCache

variable {stop : JitCpu → Bool} {i : Interrupt} {s t : CallState γ} {fuel : ℕ}
  {c c' : PrebuiltCaller γ} {ret : BitVec 64} {c₀ code code' : CodeCache} {cache : BlockPtrs}
  {gen : ℕ} {d d' : Dispatch γ}

lemma serviceSaved_eq_iff : serviceSaved h i s = serviceOwn h i s ↔ LeavesRegisters h i s := by
  constructor
  · intro heq
    exact ⟨(congrArg CallState.cpu heq).symm, congrArg CallState.machine heq⟩
  · rintro ⟨hcpu, hm⟩
    simp only [serviceSaved, serviceOwn, hcpu, hm]

lemma allServiced_congr {f g : Interrupt → CallState γ → CallState γ}
    {P Q : Interrupt → CallState γ → Prop} (hPQ : ∀ i s, P i s ↔ Q i s)
    (hP : ∀ i s, P i s → f i s = g i s) (fuel : ℕ) (s : CallState γ) :
    AllServiced h stop f P fuel s ↔ AllServiced h stop g Q fuel s := by
  induction fuel generalizing s with
  | zero => exact Iff.rfl
  | succ fuel ih =>
    simp only [AllServiced]
    cases callStep h stop fuel s with
    | none => exact Iff.rfl
    | some r =>
      apply or_congr Iff.rfl
      rw [← hPQ]
      apply and_congr_right
      intro hp
      rw [ih, hP _ _ hp]

lemma callLoop_congr {f g : Interrupt → CallState γ → CallState γ}
    (hs : AllServiced h stop f (fun i s => f i s = g i s) fuel s) :
    callLoop h stop f fuel s = callLoop h stop g fuel s := by
  induction fuel generalizing s with
  | zero => rfl
  | succ fuel ih =>
    simp only [AllServiced] at hs
    simp only [callLoop]
    cases hstep : callStep h stop fuel s with
    | none => rfl
    | some r =>
      obtain ⟨i, s'⟩ := r
      simp only [hstep] at hs
      simp only
      split_ifs with hi
      · rfl
      · obtain ⟨heq, hrest⟩ := hs.resolve_left hi
        rw [ih hrest, heq]

/-! ### The cache of blocks -/

lemma keepsOut_empty : KeepsOut c₀ code .empty := by
  intro k b hb
  cases hb

lemma KeepsOut.fill (hk : KeepsOut c₀ code cache) {b : CodeBlock} (hb : b ∉ code.jetsam) (k : ℕ) :
    KeepsOut c₀ code (update cache k (some b)) := by
  intro k' b' hb' hj
  by_cases hkk : k' = k
  · subst hkk
    rw [update_self] at hb'
    obtain rfl := Option.some.inj hb'
    exact absurd hj hb
  · rw [update_of_ne hkk] at hb'
    exact hk k' b' hb' hj

structure Synced (c₀ code : CodeCache) (gen : ℕ) (cache : BlockPtrs) : Prop where
  le : gen ≤ code.invalidateGen
  keeps : gen = code.invalidateGen → KeepsOut c₀ code cache

lemma KeepsOut.synced (hk : KeepsOut c₀ code cache) : Synced c₀ code code.invalidateGen cache :=
  ⟨le_rfl, fun _ => hk⟩

lemma Synced.older (hs : Synced c₀ code gen cache) (ho : code.Older code') :
    Synced c₀ code' gen cache := by
  refine ⟨hs.le.trans ho.gen, fun heq k b hb hj => ?_⟩
  have hgen : gen = code.invalidateGen := le_antisymm hs.le (heq ▸ ho.gen)
  rw [ho.jetsam (hgen ▸ heq)] at hj
  exact hs.keeps hgen k b hb hj

lemma Synced.fill (hs : Synced c₀ code gen cache) {b : CodeBlock} (hb : b ∉ code.jetsam) (k : ℕ) :
    Synced c₀ code gen (update cache k (some b)) :=
  ⟨hs.le, fun heq => (hs.keeps heq).fill hb k⟩

namespace Dispatch

def Synced (c₀ : CodeCache) (d : Dispatch γ) : Prop :=
  ShellBox.Synced c₀ d.machine.code d.blockCacheGen d.blockCache

lemma synced_clearCaches : d.clearCaches.Synced c₀ := keepsOut_empty.synced

lemma Synced.syncCaches (hs : d.Synced c₀) :
    d.syncCaches.Synced c₀ ∧ KeepsOut c₀ d.syncCaches.machine.code d.syncCaches.blockCache := by
  unfold Dispatch.syncCaches
  split_ifs with hgen
  · exact ⟨synced_clearCaches, keepsOut_empty⟩
  · exact ⟨hs, ShellBox.Synced.keeps hs (not_not.1 hgen)⟩

lemma Synced.findBlock (hs : d.Synced c₀) {b : CodeBlock} (hf : findBlock h d = some (b, d')) :
    d'.Synced c₀ := by
  unfold Dispatch.findBlock at hf
  simp only at hf
  split at hf
  · cases hf
    exact hs
  · split at hf
    case h_1 hl =>
      cases hf
      exact ShellBox.Synced.fill hs (CodeCache.lookup_notMem hl) _
    case h_2 =>
      split at hf
      · cases hf
      · cases hf
        apply ShellBox.Synced.fill
        · exact (ShellBox.Synced.older hs (CodeCache.older_acts _ _)).older (CodeCache.older_insert _ _)
        · exact CodeCache.newBlock_notMem _ _

lemma Synced.retryCrash (hs : d.Synced c₀) (i : Interrupt) : (retryCrash i d).2.Synced c₀ := by
  unfold Dispatch.retryCrash
  split_ifs
  · exact synced_clearCaches
  · exact synced_clearCaches
  · exact hs

lemma Synced.checkTimer (hs : d.Synced c₀) (i : Interrupt) : (checkTimer i d).2.Synced c₀ := by
  unfold Dispatch.checkTimer
  split_ifs <;> exact hs

lemma Synced.enterBlock (hs : d.Synced c₀) (b : CodeBlock) : (enterBlock h b d).2.Synced c₀ := by
  unfold Dispatch.enterBlock
  apply Synced.checkTimer
  split_ifs
  · exact synced_clearCaches
  · apply Synced.retryCrash
    exact ShellBox.Synced.older hs (CodeCache.older_acts _ _)

lemma enterBlock_ne (b : CodeBlock) : (enterBlock h b d).1 ≠ .prebuiltRet := by
  have hcrash : ∀ (i : Interrupt) (d : Dispatch γ), i ≠ .prebuiltRet →
      (retryCrash i d).1 ≠ .prebuiltRet := by
    intro i d hi
    unfold retryCrash
    split_ifs
    · exact Interrupt.noConfusion
    · exact Interrupt.noConfusion
    · exact hi
  have htimer : ∀ (i : Interrupt) (d : Dispatch γ), i ≠ .prebuiltRet →
      (checkTimer i d).1 ≠ .prebuiltRet := by
    intro i d hi
    unfold checkTimer
    split_ifs
    · exact hi
    · exact Interrupt.noConfusion
    · simp only
      split_ifs <;> exact Interrupt.noConfusion
  exact htimer _ _ (hcrash _ _ (h.enter_ne _ _ _))

lemma Synced.loop (hs : d.Synced c₀) {r : Interrupt × Dispatch γ}
    (hl : loop h stop fuel d = some r) :
    r.2.Synced c₀ ∧ (r.1 = .prebuiltRet → KeepsOut c₀ r.2.machine.code r.2.blockCache) := by
  induction fuel generalizing d with
  | zero => cases hl
  | succ fuel ih =>
    obtain ⟨hs', hk⟩ := hs.syncCaches
    simp only [Dispatch.loop] at hl
    split_ifs at hl
    · cases hl
      exact ⟨hs', fun _ => hk⟩
    · cases hl
      exact ⟨hs', fun _ => hk⟩
    · cases hl
      exact ⟨hs', fun _ => hk⟩
    · split at hl
      · cases hl
        exact ⟨hs', fun _ => hk⟩
      case h_2 b d' hf =>
        have hent := (hs'.findBlock hf).enterBlock (h := h) b
        split_ifs at hl
        · exact ih hent hl
        · cases hl
          exact ⟨hent, fun hr => absurd hr (enterBlock_ne b)⟩

end Dispatch

lemma synced_syncCache {tlb : CodeTlb}
    (hs : tlb.blockCacheGen = code.invalidateGen → KeepsOut c₀ code tlb.blockCache) :
    Synced c₀ code (tlb.syncCache code).blockCacheGen (tlb.syncCache code).blockCache := by
  unfold CodeTlb.syncCache
  split_ifs with hgen
  · exact keepsOut_empty.synced
  · rw [not_not.1 hgen]
    exact (hs (not_not.1 hgen)).synced

lemma callStep_synced
    (hs : s.tlb.blockCacheGen = s.machine.code.invalidateGen →
      KeepsOut c₀ s.machine.code s.tlb.blockCache)
    (hl : callStep h stop fuel s = some (i, t)) :
    Synced c₀ t.machine.code t.tlb.blockCacheGen t.tlb.blockCache ∧
      (i = .prebuiltRet → KeepsOut c₀ t.machine.code t.tlb.blockCache) := by
  obtain ⟨⟨i', cpu, tlb, m⟩, hstep, heq⟩ := Option.map_eq_some_iff.1 hl
  simp only [Prod.mk.injEq] at heq
  obtain ⟨rfl, rfl⟩ := heq
  have hentry := synced_syncCache hs
  unfold cpuStepToInterrupt at hstep
  split at hstep
  · cases hstep
    exact ⟨hentry, fun hr => Interrupt.noConfusion hr⟩
  case h_2 retCache hframe =>
    have hstart : (Dispatch.start s.cpu retCache (s.tlb.syncCache s.machine.code)
      s.machine).Synced c₀ := hentry
    split at hstep
    · cases hstep
    case h_2 hloop =>
      cases hstep
      exact hstart.loop hloop

lemma serviceSaved_older (i : Interrupt) (s : CallState γ) :
    (serviceSaved h i s).tlb = s.tlb ∧ s.machine.code.Older (serviceSaved h i s).machine.code :=
  ⟨rfl, CodeCache.older_acts _ _⟩

lemma callLoop_keepsOut {service : Interrupt → CallState γ → CallState γ}
    (hservice : ∀ i s, (service i s).tlb = s.tlb ∧ s.machine.code.Older (service i s).machine.code)
    (hs : s.tlb.blockCacheGen = s.machine.code.invalidateGen →
      KeepsOut c₀ s.machine.code s.tlb.blockCache)
    (hl : callLoop h stop service fuel s = some t) :
    KeepsOut c₀ t.machine.code t.tlb.blockCache := by
  induction fuel generalizing s with
  | zero => cases hl
  | succ fuel ih =>
    simp only [callLoop] at hl
    cases hstep : callStep h stop fuel s with
    | none => simp [hstep] at hl
    | some r =>
      obtain ⟨i, s'⟩ := r
      obtain ⟨hsync, hret⟩ := callStep_synced hs hstep
      simp only [hstep] at hl
      split_ifs at hl with hi
      · cases hl
        exact hret hi
      · obtain ⟨htlb, holder⟩ := hservice i s'
        apply ih _ hl
        rw [htlb]
        exact (hsync.older holder).keeps

lemma serviced_iff :
    AllServiced h stop (serviceSaved h) (fun i s => serviceSaved h i s = serviceOwn h i s) fuel s ↔
      AllServiced h stop (serviceOwn h) (LeavesRegisters h) fuel s :=
  allServiced_congr (fun _ _ => serviceSaved_eq_iff) (fun _ _ heq => heq) fuel s

lemma Dispatch.loop_mono {r : Interrupt × Dispatch γ} (hl : loop h stop fuel d = some r)
    {fuel' : ℕ} (hle : fuel ≤ fuel') : loop h stop fuel' d = some r := by
  induction fuel generalizing d fuel' with
  | zero => cases hl
  | succ fuel ih =>
    obtain ⟨k, rfl⟩ := Nat.exists_eq_succ_of_ne_zero (Nat.ne_zero_of_lt hle)
    simp only [Dispatch.loop] at hl ⊢
    split_ifs at hl ⊢
    · exact hl
    · exact hl
    · exact hl
    · split at hl
      · exact hl
      · split_ifs at hl ⊢
        · exact ih hl (Nat.le_of_succ_le_succ hle)
        · exact hl

lemma callStep_mono {r : Interrupt × CallState γ} (hl : callStep h stop fuel s = some r)
    {fuel' : ℕ} (hle : fuel ≤ fuel') : callStep h stop fuel' s = some r := by
  obtain ⟨r', hstep, heq⟩ := Option.map_eq_some_iff.1 hl
  refine Option.map_eq_some_iff.2 ⟨r', ?_, heq⟩
  unfold cpuStepToInterrupt at hstep ⊢
  split at hstep
  · exact hstep
  · split at hstep
    · cases hstep
    case h_2 hloop =>
      rw [Dispatch.loop_mono hloop hle]
      exact hstep

lemma callLoop_mono {service : Interrupt → CallState γ → CallState γ}
    (hl : callLoop h stop service fuel s = some t) {fuel' : ℕ} (hle : fuel ≤ fuel') :
    callLoop h stop service fuel' s = some t := by
  induction fuel generalizing s fuel' with
  | zero => cases hl
  | succ fuel ih =>
    obtain ⟨k, rfl⟩ := Nat.exists_eq_succ_of_ne_zero (Nat.ne_zero_of_lt hle)
    have hle' : fuel ≤ k := Nat.le_of_succ_le_succ hle
    simp only [callLoop] at hl ⊢
    cases hstep : callStep h stop fuel s with
    | none => simp [hstep] at hl
    | some r =>
      rw [callStep_mono hstep hle']
      simp only [hstep] at hl
      simp only
      split_ifs at hl ⊢
      · exact hl
      · exact ih hl hle'

lemma guestCall_unique {n n' : ℕ} {g g' : CallState γ} (hg : c.guestCall h n = some g)
    (hg' : c.guestCall h n' = some g') : g = g' := by
  have hmax := callLoop_mono hg (le_max_left n n')
  rw [callLoop_mono hg' (le_max_right n n')] at hmax
  exact (Option.some.inj hmax).symm

/-- A callee of two blocks: the first does something and may raise an interrupt, the second
returns. A service sets `x0`. -/
def calleeHost (body : JitCpu → JitCpu) (i : Interrupt) (hi : i ≠ .prebuiltRet)
    (code : List CodeAct) : JitHost Unit where
  calloc _ := true
  compile _ g := some { guest := g }
  enter b f g :=
    if b.addr = 0x1000 then
      (i, { f with cpu := { body f.cpu with pc := 0x1004 } }, { guest := g, code })
    else
      (.none, { f with cpu := { f.cpu with pc := f.cpu.regs 30 &&& 0xffffffffffff } },
        { guest := g })
  enter_ne b f g := by
    split_ifs
    · exact hi
    · exact Interrupt.noConfusion
  handleInterrupt _ cpu g := ({ cpu with regs := update cpu.regs 0 7 }, { guest := g })

def JitCpu.filled (x : BitVec 64) : JitCpu :=
  { regs := fun _ => x, sp := x, pc := 0, nzcv := 0, fp := fun _ => 0, tlsPtr := 0,
    segfaultAddr := 0, segfaultWasWrite := false, trapno := .none, cycle := 0 }

/-- A gadget with a pointer to the block at `0x3000` in its cache for returns. -/
def calleeCaller : PrebuiltCaller Unit where
  cpu := .filled 0x2000
  tlb := { memChanges := 0, blockCache := .empty, blockCacheGen := 0,
           frame := some
            { cpu := .filled 0x2000, retCache := fun k => if k = 0 then some ⟨0, 0x3000⟩ else none } }
  machine := { guest := (), code := CodeCache.insert ⟨[], [], 0, 0, by simp, by simp⟩ 0x3000,
               changes := 0, poked := false }
  saved := .filled 0
  target := 0x1000

end ShellBox
