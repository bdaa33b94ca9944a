import ShellBox.Kernel.SignalNesting
import ShellBox.Kernel.FastCalls

/-!
# Restarting system calls

`handle_interrupt` notes where a system call was made, its first argument, and whether it may be
made again after it returned `EINTR`. `receive_signal` goes back to the call if the handler that
it enters has `SA_RESTART` and the program counter is the noted one.

Nothing but the next system call takes the note away when no handler asks for a restart. So a
delivery goes back to a call that its caller has seen the end of, if the guest has run since and
has come to the same place again.
-/

namespace ShellBox

open Function

namespace Arm64Cpu

def syscallNum (cpu : Arm64Cpu) : ℕ := ((cpu.regs 8).setWidth 32).toNat

def setX0 (cpu : Arm64Cpu) (v : BitVec 64) : Arm64Cpu := { cpu with regs := update cpu.regs 0 v }

/-- Behind the `svc` that is at the program counter, with the result of the call. -/
def returned (call : Arm64Cpu) (v : BitVec 64) : Arm64Cpu := { call.setX0 v with pc := call.pc + 4 }

end Arm64Cpu

/-- The calls that can be made again with their arguments: `futex`, `epoll_pwait`, `read` and
`write`. -/
def restartableCall (num : ℕ) : Bool := num = 98 ∨ num = 22 ∨ num = 63 ∨ num = 64

/-- `-EINTR` -/
def eintrResult : BitVec 64 := -4

/-- What the handler of a system call does: its result, the memory, mask and actions it leaves,
and the stack that `sigaltstack` is called with. The fast handlers never return `EINTR`. -/
structure CallReply where
  result : BitVec 64
  mem : ℕ → UInt8
  blocked : BitVec 64
  action : ℕ → Sigaction
  altstack : Option (Bool × BitVec 64 × BitVec 64)

namespace SignalState

/-- `syscall_restartable` after a call of the table, with what was noted at its start. -/
def noteCall (s : SignalState) (r : CallReply) : Option (BitVec 64 × BitVec 64) :=
  if r.result.setWidth 32 = (-4 : BitVec 32) ∧ restartableCall s.cpu.syscallNum then
    some (s.cpu.pc, s.cpu.regs 0)
  else none

def runHandler (s : SignalState) (r : CallReply) : SignalState :=
  let s := { s with
    mem := r.mem
    blocked := r.blocked
    action := r.action
    restart := s.noteCall r }
  match r.altstack with
  | some (disable, stack, size) => s.sigaltstack disable stack size
  | none => s

/-- `handle_interrupt` for `INT_SYSCALL`; the program counter is behind the `svc` already. 139 and
240 are both `sys_rt_sigreturn`, and the result of 119 is not written back. -/
def handleSyscall (s : SignalState) (r : CallReply) : SignalState :=
  let num := s.cpu.syscallNum
  if num = 139 then s.rtSigreturn
  else if num = 240 then
    let s := s.rtSigreturn
    { s with cpu := s.cpu.setX0 (slowReturn (s.cpu.regs 0)) }
  else
    let s := s.runHandler r
    if num = 119 then s else { s with cpu := s.cpu.setX0 (slowReturn r.result) }

/-- The registers that a system call was made with, if it returns `EINTR`. -/
def callInterrupted (s : SignalState) (r : CallReply) : Option Arm64Cpu :=
  if s.cpu.syscallNum ∉ [139, 240, 119] ∧ slowReturn r.result = eintrResult then
    some { s.cpu with pc := s.cpu.pc - 4 } else none

end SignalState

/-- A task, and the registers that an interrupted system call was made with, until the guest runs
again or a handler is entered. They are a record for the proofs; nothing reads them. -/
structure RestartTask where
  state : SignalState
  interrupted : Option Arm64Cpu

inductive RestartEvent
  /-- The guest runs or tries to, and leaves the newest handlers by a long jump. All but the
  alternate stack and the note of the last system call may change. -/
  | guest (s : SignalState) (left : ℕ)
  | svc (r : CallReply)
  | deliver (sig : ℕ) (info : BitVec 1024)

def restartStep (h : FrameHost) (t : RestartTask) : RestartEvent → RestartTask
  | .guest s left => ⟨{ s with
      altstack := t.state.altstack
      altstackSize := t.state.altstackSize
      restart := t.state.restart
      live := t.state.live.drop left }, none⟩
  | .svc r => ⟨t.state.handleSyscall r, t.state.callInterrupted r⟩
  | .deliver sig info => ⟨t.state.receiveSignal h sig info, none⟩

namespace SignalState

def AtFrame (s : SignalState) : Prop := ∃ f ∈ s.live.head?, s.cpu.sp = f.addr ∧
  (s.cpu.syscallNum = 240 → slowReturn (f.cpu.regs 0) = f.cpu.regs 0)

def KeepsFrames (lo hi : ℕ) (s : SignalState) (r : CallReply) : Prop :=
  (∀ f ∈ s.live, SameBytes s.mem r.mem f.addr.toNat rtSigframeSize) ∧
    ∀ a ∈ r.altstack, s.OnOwnStack hi ∧
      AltApart lo hi (s.sigaltstack a.1 a.2.1 a.2.2).altstack
        (s.sigaltstack a.1 a.2.1 a.2.2).altstackSize

end SignalState

/-- What is assumed of an event: a frame that is pushed fits on its stack and can be written,
frames are left alone, and a handler returns with the stack pointer at its frame. -/
def RestartEvent.Orderly (h : FrameHost) (lo hi : ℕ) (t : RestartTask) : RestartEvent → Prop
  | .guest s left =>
    ∀ f ∈ t.state.live.drop left, SameBytes t.state.mem s.mem f.addr.toNat rtSigframeSize
  | .svc r => if t.state.cpu.syscallNum ∈ [139, 240] then t.state.AtFrame
    else t.state.KeepsFrames lo hi r
  | .deliver sig _ => t.state.OnOwnStack hi ∧ t.state.Fits lo sig ∧
      h.writable (t.state.frameSp sig) = true

/-- The code that runs or is left has more than `depth` frames under it. -/
def RestartEvent.Above (depth : ℕ) (t : RestartTask) : RestartEvent → Prop
  | .guest _ left => depth < t.state.live.length - left
  | .svc _ => depth < t.state.live.length
  | .deliver _ _ => True

/-- Handlers run, the first of them for `sig`, and all have returned. Between the first delivery
and the last return the interrupted code does not run. -/
def HandlersRun (h : FrameHost) (lo hi : ℕ) (t : RestartTask) (sig : ℕ) (info : BitVec 1024)
    (body : List RestartEvent) : Prop :=
  RunAll (restartStep h) (fun t' e => e.Orderly h lo hi t' ∧ e.Above t.state.live.length t') t
      (.deliver sig info :: body) ∧
    (run (restartStep h) t (.deliver sig info :: body)).state.live.length = t.state.live.length

namespace RestartTask

/-- Where the task is to go on after handlers of which the first is for `sig`: at the `svc` of the
interrupted call with the registers it was made with, behind it with `EINTR`, or else where it
was. -/
def resumeCpu (t : RestartTask) (sig : ℕ) : Arm64Cpu :=
  match t.interrupted with
  | some call =>
    if (t.state.action sig).restart ∧ restartableCall call.syscallNum then call
    else call.returned eintrResult
  | none => t.state.cpu

/-- The task goes on where it should, and no delivery will go back to the call after that. -/
def ResumesFrom (t' t : RestartTask) (sig : ℕ) : Prop :=
  t'.state.cpu = t.resumeCpu sig ∧ t'.state.restart = none

/-- The guest has come to the place behind an interrupted call once more, and the handler has
`SA_RESTART`. -/
def Stale (t : RestartTask) (sig : ℕ) : Prop :=
  t.interrupted = none ∧ (t.state.action sig).restart = true ∧
    t.state.cpu.pc ∈ t.state.restart.map Prod.fst

def Noted (t : RestartTask) : Prop := ∀ call ∈ t.interrupted,
  t.state.cpu = call.returned eintrResult ∧ t.state.restart =
    if restartableCall call.syscallNum then some (call.pc + 4, call.regs 0) else none

end RestartTask

/-! ### Frames -/

namespace SignalState

variable {h : FrameHost} {lo hi : ℕ} {s : SignalState}

lemma Inv.sublist (hs : s.Inv lo hi) {s' : SignalState} (halt : s'.altstack = s.altstack)
    (hsize : s'.altstackSize = s.altstackSize) (hlive : s'.live.Sublist s.live)
    (hmem : ∀ f ∈ s'.live, SameBytes s.mem s'.mem f.addr.toNat rtSigframeSize) :
    s'.Inv lo hi := by
  refine ⟨?_, ?_, ?_, hs.newer.sublist hlive⟩
  · rw [halt, hsize]
    exact hs.apart
  · intro f hf
    exact (hs.stored f (hlive.subset hf)).congr (hmem f hf)
  · intro f hf
    rw [halt, hsize]
    exact hs.placed f (hlive.subset hf)

lemma sigaltstack_fields (s : SignalState) (disable : Bool) (stack size : BitVec 64) :
    (s.sigaltstack disable stack size).live = s.live ∧
      (s.sigaltstack disable stack size).cpu = s.cpu ∧
      (s.sigaltstack disable stack size).restart = s.restart := by
  unfold sigaltstack
  split_ifs <;> exact ⟨rfl, rfl, rfl⟩

lemma handleSyscall_sigreturn (hs : s.Inv lo hi) (hnum : s.cpu.syscallNum ∈ [139, 240])
    (hat : s.AtFrame) (r : CallReply) :
    (s.handleSyscall r).Inv lo hi ∧ (s.handleSyscall r).restart = none ∧
      ∃ f, s.live = f :: (s.handleSyscall r).live ∧ (s.handleSyscall r).cpu = f.cpu := by
  obtain ⟨f, hf, hsp, h240⟩ := hat
  obtain ⟨rest, hlive⟩ := List.head?_eq_some_iff.mp hf
  obtain ⟨hinv, hl, hcpu, -⟩ := rtSigreturn_spec hs hlive hsp
  have hrestart : s.rtSigreturn.restart = none := by rw [rtSigreturn_eq]
  rw [List.mem_pair] at hnum
  unfold handleSyscall
  rcases hnum with hnum | hnum
  · rw [if_pos hnum]
    exact ⟨hinv, hrestart, f, hl ▸ hlive, hcpu⟩
  · have hne : s.cpu.syscallNum ≠ 139 := by rw [hnum]; decide
    rw [if_neg hne, if_pos hnum]
    refine ⟨hinv.sublist rfl rfl (List.Sublist.refl _) fun _ _ _ _ => rfl, hrestart, f,
      hl ▸ hlive, ?_⟩
    simp only [hcpu, Arm64Cpu.setX0, h240 hnum, update_eq_self]

lemma handleSyscall_eq (hnum : s.cpu.syscallNum ∉ [139, 240]) (r : CallReply) :
    s.handleSyscall r = if s.cpu.syscallNum = 119 then s.runHandler r else
      { s.runHandler r with cpu := (s.runHandler r).cpu.setX0 (slowReturn r.result) } := by
  rw [List.mem_pair, not_or] at hnum
  unfold handleSyscall
  rw [if_neg hnum.1, if_neg hnum.2]

lemma runHandler_fields (s : SignalState) (r : CallReply) :
    (s.runHandler r).live = s.live ∧ (s.runHandler r).cpu = s.cpu ∧
      (s.runHandler r).restart = s.noteCall r := by
  unfold runHandler
  cases r.altstack with
  | none => exact ⟨rfl, rfl, rfl⟩
  | some a => exact sigaltstack_fields _ _ _ _

lemma sigaltstack_congr {s' : SignalState} (hcpu : s'.cpu = s.cpu)
    (halt : s'.altstack = s.altstack) (hsize : s'.altstackSize = s.altstackSize) (disable : Bool)
    (stack size : BitVec 64) :
    (s'.sigaltstack disable stack size).altstack = (s.sigaltstack disable stack size).altstack ∧
      (s'.sigaltstack disable stack size).altstackSize =
        (s.sigaltstack disable stack size).altstackSize := by
  unfold sigaltstack isOnAltstack
  rw [hcpu, halt, hsize]
  split_ifs
  · exact ⟨halt, hsize⟩
  · exact ⟨rfl, rfl⟩
  · exact ⟨halt, hsize⟩
  · exact ⟨rfl, rfl⟩

lemma inv_runHandler (hs : s.Inv lo hi) {r : CallReply} (hkeeps : s.KeepsFrames lo hi r) :
    (s.runHandler r).Inv lo hi := by
  obtain ⟨hmem, halt⟩ := hkeeps
  let s' : SignalState :=
    { s with mem := r.mem, blocked := r.blocked, action := r.action, restart := s.noteCall r }
  have hs' : s'.Inv lo hi := hs.sublist rfl rfl (List.Sublist.refl _) hmem
  unfold runHandler
  cases ha : r.altstack with
  | none => exact hs'
  | some a =>
    obtain ⟨hown, happart⟩ := halt a ha
    apply inv_sigaltstack hs' hown
    have hcpu : s'.cpu = s.cpu := rfl
    obtain ⟨hstack, hsize⟩ := sigaltstack_congr hcpu rfl rfl a.1 a.2.1 a.2.2
    rw [hstack, hsize]
    exact happart

lemma handleSyscall_other (hs : s.Inv lo hi) (hnum : s.cpu.syscallNum ∉ [139, 240])
    {r : CallReply} (hkeeps : s.KeepsFrames lo hi r) :
    (s.handleSyscall r).Inv lo hi ∧ (s.handleSyscall r).live = s.live := by
  have hinv := inv_runHandler hs hkeeps
  obtain ⟨hlive, -, -⟩ := runHandler_fields s r
  rw [handleSyscall_eq hnum]
  split_ifs
  · exact ⟨hinv, hlive⟩
  · exact ⟨hinv.sublist rfl rfl (List.Sublist.refl _) fun _ _ _ _ => rfl, hlive⟩

end SignalState

variable {h : FrameHost} {lo hi : ℕ} {t : RestartTask}

lemma inv_restartStep {e : RestartEvent} (he : e.Orderly h lo hi t) (ht : t.state.Inv lo hi) :
    (restartStep h t e).state.Inv lo hi := by
  cases e with
  | guest s left => exact ht.sublist rfl rfl (List.drop_sublist _ _) he
  | svc r =>
    simp only [RestartEvent.Orderly] at he
    split_ifs at he with hnum
    · exact (SignalState.handleSyscall_sigreturn ht hnum he r).1
    · exact (SignalState.handleSyscall_other ht hnum he).1
  | deliver sig info =>
    obtain ⟨hown, hfits, hwrite⟩ := he
    exact SignalState.inv_receiveSignal ht info hown hfits hwrite

/-! ### The note -/

lemma setWidth_slowReturn (v : BitVec 64) : (slowReturn v).setWidth 32 = v.setWidth 32 := by
  unfold slowReturn
  simp only []
  split_ifs
  · ext i hi
    simp [BitVec.getElem_signExtend, hi, show i < 64 by omega]
  · rfl

lemma noted_restartStep (h : FrameHost) (t : RestartTask) (e : RestartEvent) :
    (restartStep h t e).Noted := by
  cases e with
  | guest s left => exact fun _ hcall => absurd hcall (Option.not_mem_none _)
  | deliver sig info => exact fun _ hcall => absurd hcall (Option.not_mem_none _)
  | svc r =>
    intro call hcall
    simp only [restartStep, SignalState.callInterrupted, Option.mem_def] at hcall ⊢
    split_ifs at hcall with hret
    obtain rfl := Option.some.inj hcall
    obtain ⟨hnum, hresult⟩ := hret
    simp only [List.mem_cons, List.not_mem_nil, or_false, not_or] at hnum
    have hlow : r.result.setWidth 32 = (-4 : BitVec 32) := by
      rw [← setWidth_slowReturn, hresult]
      decide
    obtain ⟨-, hcpu, hrestart⟩ := SignalState.runHandler_fields t.state r
    rw [SignalState.handleSyscall_eq (by simp [hnum.1, hnum.2.1]), if_neg hnum.2.2]
    refine ⟨?_, ?_⟩
    · simp only [hcpu, hresult, Arm64Cpu.returned, Arm64Cpu.setX0, BitVec.sub_add_cancel]
    · simp only [hrestart, SignalState.noteCall, hlow, true_and, BitVec.sub_add_cancel,
        Arm64Cpu.syscallNum]

lemma restartSyscall_cpu (ht : t.Noted) (sig : ℕ) :
    (t.state.restartSyscall sig).cpu = t.resumeCpu sig ↔ ¬ t.Stale sig := by
  unfold RestartTask.Stale RestartTask.resumeCpu
  cases hint : t.interrupted with
  | some call =>
    obtain ⟨hcpu, hrestart⟩ := ht call hint
    refine iff_of_true ?_ fun hstale => Option.some_ne_none call hstale.1
    by_cases hcall : restartableCall call.syscallNum = true
    · rw [if_pos hcall] at hrestart
      by_cases hsa : (t.state.action sig).restart = true
      · simp [SignalState.restartSyscall, hrestart, hcpu, hsa, hcall, Arm64Cpu.returned,
          Arm64Cpu.setX0]
      · simp [SignalState.restartSyscall, hrestart, hcpu, hsa]
    · rw [if_neg hcall] at hrestart
      simp [SignalState.restartSyscall, hrestart, hcpu, hcall]
  | none =>
    cases hrestart : t.state.restart with
    | none => simp [SignalState.restartSyscall, hrestart]
    | some note =>
      by_cases hback : (t.state.action sig).restart = true ∧ t.state.cpu.pc = note.1
      · have hmoved : t.state.cpu.pc - 4 ≠ t.state.cpu.pc := by
          intro heq
          simpa using congrArg (t.state.cpu.pc - ·) heq
        refine iff_of_false (fun heq => ?_) fun hstale => hstale ⟨rfl, hback.1, ?_⟩
        · simp only [SignalState.restartSyscall, hrestart, if_pos hback] at heq
          exact hmoved (congrArg Arm64Cpu.pc heq)
        · simp [hback.2]
      · refine iff_of_true ?_ fun hstale => hback ⟨hstale.2.1, ?_⟩
        · simp only [SignalState.restartSyscall, hrestart, if_neg hback]
        · simpa [eq_comm] using hstale.2.2

/-! ### Handlers that return -/

/-- The interrupted code waits under the frame of its first handler, or is about to go on. -/
def Waits (cpu : Arm64Cpu) (base : List LiveFrame) (t : RestartTask) : Prop :=
  (∃ f, f.cpu = cpu ∧ f :: base <:+ t.state.live) ∨
    t.state.live = base ∧ t.state.cpu = cpu ∧ t.state.restart = none

lemma live_deliver {sig : ℕ} (info : BitVec 1024)
    (hwrite : h.writable (t.state.frameSp sig) = true) :
    ∃ f, f.cpu = (t.state.restartSyscall sig).cpu ∧
      (restartStep h t (.deliver sig info)).state.live = f :: t.state.live :=
  ⟨_, rfl, SignalState.live_receiveSignal info hwrite⟩

lemma waits_deliver {cpu : Arm64Cpu} {base : List LiveFrame} {sig : ℕ} {info : BitVec 1024}
    (hwrite : h.writable (t.state.frameSp sig) = true) (hwaits : Waits cpu base t) :
    Waits cpu base (restartStep h t (.deliver sig info)) := by
  obtain ⟨g, hg, hlive⟩ := live_deliver info hwrite
  rw [Waits, hlive]
  rcases hwaits with ⟨f, hf, hsuffix⟩ | ⟨hbase, hcpu, hrestart⟩
  · exact Or.inl ⟨f, hf, hsuffix.trans (List.suffix_cons _ _)⟩
  · refine Or.inl ⟨g, ?_, hbase ▸ List.suffix_rfl⟩
    rw [hg, ← hcpu]
    unfold SignalState.restartSyscall
    rw [hrestart]

lemma waits_restartStep {cpu : Arm64Cpu} {base : List LiveFrame} {e : RestartEvent}
    (ht : t.state.Inv lo hi) (he : e.Orderly h lo hi t) (habove : e.Above base.length t)
    (hwaits : Waits cpu base t) : Waits cpu base (restartStep h t e) := by
  cases e with
  | deliver sig info => exact waits_deliver he.2.2 hwaits
  | guest s left =>
    simp only [RestartEvent.Above] at habove
    rcases hwaits with ⟨f, hf, hsuffix⟩ | ⟨hbase, -, -⟩
    · refine Or.inl ⟨f, hf, ?_⟩
      apply List.suffix_of_suffix_length_le hsuffix (List.drop_suffix _ _)
      simp only [List.length_cons, List.length_drop]
      omega
    · rw [hbase] at habove
      omega
  | svc r =>
    simp only [RestartEvent.Above] at habove
    simp only [RestartEvent.Orderly] at he
    rcases hwaits with ⟨f, hf, hsuffix⟩ | ⟨hbase, -, -⟩
    · split_ifs at he with hnum
      · obtain ⟨-, hrestart, g, hlive, hcpu⟩ := SignalState.handleSyscall_sigreturn ht hnum he r
        rw [hlive] at hsuffix
        rcases List.suffix_cons_iff.mp hsuffix with heq | hsuffix
        · obtain ⟨rfl, hbase⟩ := List.cons.inj heq
          exact Or.inr ⟨hbase.symm, hcpu.trans hf, hrestart⟩
        · exact Or.inl ⟨f, hf, hsuffix⟩
      · obtain ⟨-, hlive⟩ := SignalState.handleSyscall_other ht hnum he
        refine Or.inl ⟨f, hf, ?_⟩
        simp only [restartStep, hlive]
        exact hsuffix
    · rw [hbase] at habove
      omega

lemma cpu_handlersRun (ht : t.state.Inv lo hi) {sig : ℕ} {info : BitVec 1024}
    {body : List RestartEvent} (hrun : HandlersRun h lo hi t sig info body) :
    (run (restartStep h) t (.deliver sig info :: body)).state.cpu =
        (t.state.restartSyscall sig).cpu ∧
      (run (restartStep h) t (.deliver sig info :: body)).state.restart = none := by
  obtain ⟨⟨⟨hfirst, -⟩, hbody⟩, hlen⟩ := hrun
  have hwaits : Waits (t.state.restartSyscall sig).cpu t.state.live
      (restartStep h t (.deliver sig info)) := by
    obtain ⟨f, hf, hlive⟩ := live_deliver info hfirst.2.2
    exact Or.inl ⟨f, hf, hlive ▸ List.suffix_rfl⟩
  obtain ⟨-, hlast⟩ := run_invariant
    (P := fun t' => t'.state.Inv lo hi ∧
      Waits (t.state.restartSyscall sig).cpu t.state.live t')
    (fun t' e he ht' => ⟨inv_restartStep he.1 ht'.1, waits_restartStep ht'.1 he.1 he.2 ht'.2⟩)
    hbody ⟨inv_restartStep hfirst ht, hwaits⟩
  rw [run_cons] at hlen ⊢
  rcases hlast with ⟨f, -, hsuffix⟩ | ⟨-, hcpu, hrestart⟩
  · have hle : t.state.live.length + 1 ≤ _ := hsuffix.length_le
    exact absurd (hlen ▸ hle) (Nat.not_succ_le_self _)
  · exact ⟨hcpu, hrestart⟩

/-- After handlers have run and returned, at any point of any run, the task goes on where it
should, unless the first of them was delivered on a stale note. -/
theorem resumesFrom_iff {t₀ : RestartTask} (hinv : t₀.state.Inv lo hi)
    (hstart : t₀.interrupted = none) {es : List RestartEvent}
    (hrun : RunAll (restartStep h) (fun t e => e.Orderly h lo hi t) t₀ es) {sig : ℕ}
    {info : BitVec 1024} {body : List RestartEvent}
    (hbody : HandlersRun h lo hi (run (restartStep h) t₀ es) sig info body) :
    (run (restartStep h) t₀ (es ++ .deliver sig info :: body)).ResumesFrom
        (run (restartStep h) t₀ es) sig ↔
      ¬ (run (restartStep h) t₀ es).Stale sig := by
  obtain ⟨hinv, hnoted⟩ := run_invariant (P := fun t => t.state.Inv lo hi ∧ t.Noted)
    (fun t e he ht => ⟨inv_restartStep he ht.1, noted_restartStep h t e⟩) hrun
    ⟨hinv, fun call hcall => by simp [hstart] at hcall⟩
  obtain ⟨hcpu, hrestart⟩ := cpu_handlersRun hinv hbody
  rw [run_append]
  unfold RestartTask.ResumesFrom
  rw [hcpu, and_iff_left hrestart]
  exact restartSyscall_cpu hnoted sig

/-! ### A loop behind a call -/

/-- A task behind the `svc` of a `read`, with a handler for 12 that has `SA_RESTART` and one for
the other signals that has not. -/
def readingTask : RestartTask where
  state := {
    cpu := ⟨fun n => if n = 8 then 63 else 7, 0x20000, 0x404, 0, 0, 0, fun _ => 2⟩
    exclAddr := 0
    segfaultAddr := 0
    mem := fun _ => 0
    blocked := 0
    action := fun sig => ⟨0x5000, 0, false, false, false, sig = 12⟩
    altstack := 0
    altstackSize := 0
    restart := none
    live := [] }
  interrupted := none

/-- `read` is interrupted. -/
def eintrReply : CallReply where
  result := 0xfffffffc
  mem := fun _ => 0
  blocked := 0
  action := readingTask.state.action
  altstack := none

lemma inv_readingTask : readingTask.state.Inv 0x10000 0x20000 where
  apart := fun hne => absurd rfl hne
  stored := fun _ hf => absurd hf List.not_mem_nil
  placed := fun _ hf => absurd hf List.not_mem_nil
  newer := List.Pairwise.nil

/-- The handler puts the number of `rt_sigreturn` into its register. -/
def returning (t : RestartTask) : RestartEvent :=
  .guest { t.state with cpu := { t.state.cpu with regs := update t.state.cpu.regs 8 139 } } 0

/-- The handler leaves for a loop that starts behind the `svc`. -/
def looping (t : RestartTask) : RestartEvent :=
  let cpu := { t.state.cpu with pc := 0x404, sp := 0x20000, regs := fun _ => 9 }
  .guest { t.state with cpu } 1

lemma orderly_looping (t : RestartTask) : (looping t).Orderly h lo hi t := fun _ _ _ _ => rfl

lemma sp_deliver {sig : ℕ} (info : BitVec 1024)
    (hwrite : h.writable (t.state.frameSp sig) = true) :
    (restartStep h t (.deliver sig info)).state.cpu.sp = t.state.frameSp sig := by
  obtain ⟨pc, regs, restart, heq⟩ := SignalState.restartSyscall_eq t.state sig
  simp only [restartStep, SignalState.receiveSignal]
  rw [heq]
  unfold SignalState.pushFrame
  exact congrArg (fun s : SignalState => s.cpu.sp) (if_pos hwrite)

lemma handlersRun_returning {sig : ℕ} {info : BitVec 1024}
    (hfirst : (RestartEvent.deliver sig info).Orderly h lo hi t) (r : CallReply) :
    HandlersRun h lo hi t sig info
      [returning (restartStep h t (.deliver sig info)), .svc r] := by
  obtain ⟨f, hf, hlive⟩ : ∃ f, f.addr = t.state.frameSp sig ∧
      (restartStep h t (.deliver sig info)).state.live = f :: t.state.live :=
    ⟨_, rfl, SignalState.live_receiveSignal info hfirst.2.2⟩
  have hsp := sp_deliver info hfirst.2.2
  unfold HandlersRun
  simp only [RunAll, run_cons, run_nil]
  generalize restartStep h t (.deliver sig info) = t₁ at hlive hsp
  generalize ht₂ : restartStep h t₁ (returning t₁) = t₂
  have hnum : t₂.state.cpu.syscallNum = 139 := by
    rw [← ht₂]
    simp [restartStep, returning, Arm64Cpu.syscallNum]
  have hlive₂ : t₂.state.live = f :: t.state.live := by
    rw [← ht₂]
    exact hlive
  have hsp₂ : t₂.state.cpu.sp = f.addr := by
    rw [← ht₂, hf]
    exact hsp
  refine ⟨⟨⟨hfirst, trivial⟩, ⟨fun _ _ _ _ => rfl, ?_⟩, ⟨?_, ?_⟩, trivial⟩, ?_⟩
  · simp [returning, RestartEvent.Above, hlive]
  · simp only [RestartEvent.Orderly, hnum, List.mem_cons, true_or, if_true]
    exact ⟨f, by simp [hlive₂], hsp₂, fun h240 => absurd (hnum.symm.trans h240) (by decide)⟩
  · simp [RestartEvent.Above, hlive₂]
  · obtain ⟨-, hl, -, -⟩ := SignalState.rtSigreturn_fields t₂.state
    simp [restartStep, SignalState.handleSyscall, hnum, hl, hlive₂]

lemma orderly_read :
    (RestartEvent.svc eintrReply).Orderly nestingHost 0x10000 0x20000 readingTask := by
  have hnum : readingTask.state.cpu.syscallNum ∉ [139, 240] := by decide +kernel
  simp only [RestartEvent.Orderly]
  rw [if_neg hnum]
  exact ⟨fun _ hf => absurd hf List.not_mem_nil, fun _ ha => absurd ha (Option.not_mem_none _)⟩

/-- The `read` that is interrupted is made again. -/
theorem resumesFrom_read :
    let t := run (restartStep nestingHost) readingTask [.svc eintrReply]
    let body := [returning (restartStep nestingHost t (.deliver 12 0)), .svc eintrReply]
    (run (restartStep nestingHost) readingTask
      ([.svc eintrReply] ++ .deliver 12 0 :: body)).ResumesFrom t 12 := by
  have hfirst : (RestartEvent.deliver 12 0).Orderly nestingHost 0x10000 0x20000
      (run (restartStep nestingHost) readingTask [.svc eintrReply]) :=
    ⟨Or.inr (by decide +kernel), ⟨by decide +kernel, by decide +kernel⟩, rfl⟩
  have hrun : RunAll (restartStep nestingHost)
      (fun t e => e.Orderly nestingHost 0x10000 0x20000 t) readingTask [.svc eintrReply] :=
    ⟨orderly_read, trivial⟩
  refine (resumesFrom_iff inv_readingTask rfl hrun (handlersRun_returning hfirst eintrReply)).mpr
    fun hstale => ?_
  have hread : (run (restartStep nestingHost) readingTask [.svc eintrReply]).interrupted.isSome :=
    by decide +kernel
  rw [hstale.1] at hread
  exact absurd hread Bool.false_ne_true

/-- `read` is interrupted, and the handler for 10 leaves by a long jump. -/
def loopingRun : List RestartEvent :=
  let t := run (restartStep nestingHost) readingTask [.svc eintrReply, .deliver 10 0]
  [.svc eintrReply, .deliver 10 0, looping t]

/-- A handler for 12 then goes back to the `read`, which its caller has seen the end of. -/
theorem resumesFrom_looping : ¬ ∀ es sig info body,
    RunAll (restartStep nestingHost)
        (fun t e => e.Orderly nestingHost 0x10000 0x20000 t) readingTask es →
      HandlersRun nestingHost 0x10000 0x20000 (run (restartStep nestingHost) readingTask es) sig
        info body →
      (run (restartStep nestingHost) readingTask (es ++ .deliver sig info :: body)).ResumesFrom
        (run (restartStep nestingHost) readingTask es) sig := by
  intro hall
  have hfirst : (RestartEvent.deliver 12 0).Orderly nestingHost 0x10000 0x20000
      (run (restartStep nestingHost) readingTask loopingRun) :=
    ⟨Or.inr (by decide +kernel), ⟨by decide +kernel, by decide +kernel⟩, rfl⟩
  have hresumes := hall loopingRun 12 0 _ ?_ (handlersRun_returning hfirst eintrReply)
  · have hpc := congrArg Arm64Cpu.pc hresumes.1
    revert hpc
    decide +kernel
  · refine ⟨orderly_read, ⟨Or.inr (by decide +kernel), ?_, rfl⟩, ?_, trivial⟩
    · exact ⟨by decide +kernel, by decide +kernel⟩
    · exact orderly_looping _

end ShellBox
