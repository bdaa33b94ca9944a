import Mathlib

/-!
# Signals of one task

A task has a set of pending signals, a queue with one entry for each signal sent, a mask of
blocked signals and a table of actions. Senders add to the set and to the queue; the task takes
entries off in `receive_signals` and in `sigtimedwait`.

Everything happens under the lock of the action table, except that a traced task gives the lock
up while it reports a signal to its tracer in the middle of `receive_signals`.
-/

namespace ShellBox

/-- `sigset_t_`. -/
abbrev SigSet := Finset ℕ

def sigkill : ℕ := 9
def sigstop : ℕ := 19

def sigrtmin : ℕ := 32

def unblockableMask : SigSet := {sigkill, sigstop}

/-- `struct sigaction_`, with the flags that delivery reads. -/
structure SigAction where
  handler : ℕ
  mask : SigSet := ∅
  noDefer : Bool := false
  resetHand : Bool := false
  onStack : Bool := false
  restart : Bool := false
  deriving DecidableEq

def sigDfl : ℕ := 0
def sigIgn : ℕ := 1

inductive SignalDisposition
  | ignore | kill | callHandler | stop
  deriving DecidableEq, Repr

def defaultAction (sig : ℕ) : SignalDisposition :=
  if sig ∈ [23, 18, 17, 29, 28] then .ignore
  else if sig ∈ [19, 20, 21, 22] then .stop
  else .kill

def signalAction (action : ℕ → SigAction) (sig : ℕ) : SignalDisposition :=
  if sig ∈ unblockableMask then defaultAction sig
  else if (action sig).handler = sigIgn then .ignore
  else if (action sig).handler ≠ sigDfl then .callHandler
  else defaultAction sig

structure SignalCpu where
  pc : ℕ
  sp : ℕ
  regs : ℕ → ℕ
  exclAddr : ℕ

/-- The signal frame on the guest stack, as far as `rt_sigreturn` and the handler read it. -/
structure SignalFrame where
  sig : ℕ
  sp : ℕ
  sigmask : SigSet
  cpu : SignalCpu

/-- `syscall_restart_pc` and `syscall_restart_arg0`, while `syscall_restartable` is set. -/
structure SyscallRestart where
  pc : ℕ
  arg0 : ℕ

/-- A walk over the queue that waits in `signal_delivery_stop`: the mask it uses and the entries
it will still look at. -/
structure SignalWalk where
  blocked : SigSet
  todo : List ℕ

/-- The signal state of a task. While a walk is suspended, `queue` has the entries it passed and
those that it will not see. -/
structure SignalTask where
  pending : SigSet := ∅
  queue : List ℕ := []
  blocked : SigSet := ∅
  waiting : SigSet := ∅
  savedMask : Option SigSet := none
  action : ℕ → SigAction := fun _ => { handler := sigDfl }
  altstack : ℕ := 0
  altstackSize : ℕ := 0
  cpu : SignalCpu := { pc := 0, sp := 0, regs := fun _ => 0, exclAddr := 2 ^ 64 - 1 }
  restart : Option SyscallRestart := none
  traced : Bool := false
  stopped : Bool := false
  exited : Bool := false
  frames : List SignalFrame := []
  walk : Option SignalWalk := none

/-- The layout of `struct rt_sigframe_`, the address of the trampoline, and where the guest stack
can be written. -/
structure SignalHost where
  frameSize : ℕ
  infoOffset : ℕ
  ucOffset : ℕ
  restorer : ℕ
  writable : ℕ → Bool

namespace SignalTask

/-- All entries of the list `task->queue`. -/
def entries (t : SignalTask) : List ℕ := t.queue ++ ((t.walk.map SignalWalk.todo).getD [])

/-- `list_add_tail(&task->queue, ...)`: a walk in progress sees the entry if it has another one
before it. -/
def enqueue (t : SignalTask) (sig : ℕ) : SignalTask :=
  match t.walk with
  | some { blocked := b, todo := next :: rest } =>
    { t with walk := some { blocked := b, todo := next :: rest ++ [sig] } }
  | _ => { t with queue := t.queue ++ [sig] }

/-- `deliver_signal_unlocked`, on the state of the task. -/
def deliverSignalUnlocked (t : SignalTask) (sig : ℕ) : SignalTask :=
  if sig < sigrtmin ∧ sig ∈ t.pending then t
  else { t with pending := insert sig t.pending }.enqueue sig

/-- `send_signal`, to a task that has not exited. -/
def sendSignal (t : SignalTask) (sig : ℕ) : SignalTask :=
  if sig = 0 ∨ t.exited then t
  else if signalAction t.action sig = .ignore then t
  else t.deliverSignalUnlocked sig

def trySelfSignal (t : SignalTask) (sig : ℕ) : SignalTask :=
  if signalAction t.action sig ≠ .ignore ∧ sig ∉ t.blocked then t.deliverSignalUnlocked sig else t

def sigmaskSet (t : SignalTask) (set : SigSet) : SignalTask :=
  { t with blocked := set \ unblockableMask }

def sigmaskSetTemp (t : SignalTask) (mask : SigSet) : SignalTask :=
  { t with savedMask := some t.blocked }.sigmaskSet mask

def doSigaction (t : SignalTask) (sig : ℕ) (action : SigAction) : SignalTask :=
  if 64 < sig ∨ sig ∈ unblockableMask then t
  else { t with action := Function.update t.action sig action }

def maskOf (action : ℕ → SigAction) (sig : ℕ) : SigSet :=
  if (action sig).noDefer then (action sig).mask else insert sig (action sig).mask

def resetAction (action : ℕ → SigAction) (sig : ℕ) : ℕ → SigAction :=
  if (action sig).resetHand then Function.update action sig { handler := sigDfl } else action

/-- The `SA_RESTART` rewind. -/
def restartSyscall (t : SignalTask) (sig : ℕ) : SignalTask :=
  match t.restart with
  | some r =>
    if (t.action sig).restart ∧ t.cpu.pc = r.pc then
      { t with
        cpu := { t.cpu with pc := t.cpu.pc - 4, regs := Function.update t.cpu.regs 0 r.arg0 }
        restart := none }
    else t
  | none => t

def isOnAltstack (t : SignalTask) (sp : ℕ) : Bool :=
  t.altstack < sp ∧ sp ≤ t.altstack + t.altstackSize

def frameSp (h : SignalHost) (t : SignalTask) (sig : ℕ) : ℕ :=
  let sp := if (t.action sig).onStack ∧ t.altstack ≠ 0 ∧ ¬ t.isOnAltstack t.cpu.sp
    then t.altstack + t.altstackSize else t.cpu.sp
  (sp + 2 ^ 64 - h.frameSize) % 2 ^ 64 / 16 * 16

/-- The part of `receive_signal` that pushes a handler frame. If the frame cannot be written the
task sends itself a signal with the lock held, and waits for the lock for ever. -/
def pushHandler (h : SignalHost) (t : SignalTask) (sig : ℕ) : Option SignalTask :=
  let t := t.restartSyscall sig
  let sp := t.frameSp h sig
  let regs := Function.update (Function.update (Function.update (Function.update t.cpu.regs 0 sig)
    1 (sp + h.infoOffset)) 2 (sp + h.ucOffset)) 30 h.restorer
  if h.writable sp then
    some { t with
      frames := t.frames ++ [{ sig := sig, sp := sp, sigmask := t.blocked, cpu := t.cpu }]
      cpu := { pc := (t.action sig).handler, sp := sp, regs := regs, exclAddr := 2 ^ 64 - 1 }
      blocked := t.blocked ∪ maskOf t.action sig
      action := resetAction t.action sig }
  else none

def receiveSignal (h : SignalHost) (t : SignalTask) (sig : ℕ) : Option SignalTask :=
  match signalAction t.action sig with
  | .ignore      => some t
  | .stop        => some { t with stopped := true }
  | .kill        => some { t with exited := true, queue := [] }
  | .callHandler => t.pushHandler h sig

/-- The loop of `receive_signals`, up to its end or to a stop for the tracer. -/
def receiveLoop (h : SignalHost) (blocked : SigSet) : List ℕ → SignalTask → Option SignalTask
  | [], t => some t
  | sig :: rest, t =>
    if sig ∈ blocked then receiveLoop h blocked rest { t with queue := t.queue ++ [sig] }
    else if t.traced ∧ sig ≠ sigkill then
      some { t with
        pending := t.pending.erase sig, walk := some { blocked := blocked, todo := rest } }
    else do
      let t ← { t with pending := t.pending.erase sig }.receiveSignal h sig
      if t.exited then some t else receiveLoop h blocked rest t

/-- The mask that `receive_signals` uses for the whole walk. -/
def passMask (t : SignalTask) : SigSet :=
  match t.savedMask with
  | some saved => t.blocked ∩ saved
  | none       => t.blocked

def receiveSignals (h : SignalHost) (t : SignalTask) : Option SignalTask :=
  receiveLoop h t.passMask t.queue
    { t with queue := [], blocked := t.savedMask.getD t.blocked, savedMask := none }

/-- The tracer lets the task go on; a pending `SIGKILL` ends it. -/
def resume (h : SignalHost) (t : SignalTask) : Option SignalTask :=
  match t.walk with
  | some w =>
    if sigkill ∈ t.pending then some { t with exited := true, queue := [], walk := none }
    else receiveLoop h w.blocked w.todo { t with walk := none }
  | none => some t

/-- The end of `sys_rt_sigtimedwait`, after a wait that did not time out. -/
def takeWaited (t : SignalTask) (set : SigSet) : SignalTask :=
  match t.queue.find? (· ∈ set) with
  | some sig => { t with waiting := ∅, queue := t.queue.erase sig }
  | none     => { t with waiting := ∅ }

end SignalTask

inductive SignalAct
  | send (sig : ℕ)
  | deliver (sig : ℕ)
  | trySelf (sig : ℕ)
  | sigprocmask (set : SigSet)
  | sigmaskTemp (mask : SigSet)
  | sigaction (sig : ℕ) (action : SigAction)
  | trace (traced : Bool)
  | receive
  | resume
  /-- `sys_rt_sigtimedwait` up to its wait. -/
  | waitBegin (set : SigSet)
  /-- Its end, after `_ETIMEDOUT` or after `_EINTR`. -/
  | waitEnd (set : SigSet) (timedOut : Bool)

def SignalAct.own : SignalAct → Bool
  | send _ | deliver _ | sigaction _ _ | trace _ | resume => false
  | _ => true

namespace SignalTask

def act (h : SignalHost) (t : SignalTask) : SignalAct → Option SignalTask
  | .send sig             => some (t.sendSignal sig)
  | .deliver sig          => some (t.deliverSignalUnlocked sig)
  | .trySelf sig          => some (t.trySelfSignal sig)
  | .sigprocmask set      => some (t.sigmaskSet set)
  | .sigmaskTemp mask     => some (t.sigmaskSetTemp mask)
  | .sigaction sig action => some (t.doSigaction sig action)
  | .trace traced         => some { t with traced := traced }
  | .receive              => t.receiveSignals h
  | .resume               => t.resume h
  | .waitBegin set        => some { t with waiting := set }
  | .waitEnd set timedOut => some (if timedOut then { t with waiting := ∅ } else t.takeWaited set)

def step (h : SignalHost) (t : SignalTask) (a : SignalAct) : SignalTask :=
  if t.exited ∨ (a.own ∧ t.walk.isSome) then t else (t.act h a).getD t

end SignalTask

end ShellBox
