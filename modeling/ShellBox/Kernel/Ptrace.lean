import ShellBox.Kernel.Signal
import ShellBox.Kernel.Wait
import ShellBox.Logic.Loop

/-!
# Traced stops

A traced task that takes a signal marks itself as stopped, tells its parent and sleeps until the
mark is gone; whenever it wakes up it looks for `SIGKILL`. It has its signal table locked at the start
and takes `ptrace.lock` before it sleeps. The parent's requests find the child by the mark, with
`ptrace.lock`, and release it by hand.

One traced task is followed. Other tasks hold its locks only while they do something that ends by
itself, and then nothing else is shown. A sender of `SIGKILL` makes it pending with the signal table
locked, and gives the lock back while it notifies the task.
-/

namespace ShellBox

open Function

/-- Where a task is in `signal_delivery_stop`. -/
inductive TraceePc
  | running
  /-- It has its signal table locked and goes for `ptrace.lock`. -/
  | entry (sig : ℕ)
  /-- It has marked itself, and has to lock its parent's signal table. -/
  | told
  /-- It has no lock and goes for `ptrace.lock`. -/
  | unlocked
  /-- At the loop's condition, with `ptrace.lock`. -/
  | looping
  | sleeping
  /-- It has been woken up and goes for `ptrace.lock`. -/
  | woken
  /-- Behind the sleep, with `ptrace.lock`. -/
  | checking
  | leaving
  | exiting
  deriving DecidableEq

def TraceePc.inStop : TraceePc → Bool
  | .told | .unlocked | .looping | .sleeping | .woken | .checking => true
  | _ => false

inductive PtraceRequest
  | traceme
  | peek
  | peekuser
  | poke
  | cont
  | kill
  | singlestep
  | getregs
  | setregs
  | getfpregs
  | setfpregs
  | setoptions
  | getsiginfo
  | other
  deriving DecidableEq

/-- Where a `PTRACE_KILL` is, after the mark is gone: it goes for the signal table, has made `SIGKILL`
pending and is going to notify the task, or goes for the signal table again. -/
inductive KillStage
  | going
  | pending
  | noticed
  deriving DecidableEq

/-- A task with its `struct ptrace`. `locked` is the task, other than the traced one, that holds
`ptrace.lock`; `killing` says where the `PTRACE_KILL` is that it is in. `notices` counts the other
senders of `SIGKILL` that are going to notify the task. `mem` is the memory of the task and `out` that
of its parent, both by the addresses that are mapped. `granted` and `reports` say of the last stop
whether a request has ended it, and how many waits have taken it. -/
structure Tracee where
  pid : ℕ
  parent : ℕ
  leader : Bool
  sharesSighand : ℕ → Bool
  traced : Bool
  pc : TraceePc
  stopped : Bool
  signal : ℕ
  info : ℕ
  killPending : Bool
  notices : ℕ
  locked : Option ℕ
  killing : Option KillStage
  mem : ℕ → Option ℕ
  out : ℕ → Option ℕ
  granted : Bool
  reports : ℕ

inductive TraceeEvent
  | takeSignal (sig : ℕ)
  | enter (info : ℕ)
  | tell
  | relock
  | turn
  | spurious
  | wake
  | check
  | leave
  | takeKill
  | kill
  | notice
  | killStep
  | request (caller : ℕ) (req : PtraceRequest) (pid addr data : ℕ)
  | wait (options : WaitOptions) (others : Bool)
  | reparent (new : ℕ)
  | user (mem out : ℕ → Option ℕ)

namespace Tracee

variable (w : Tracee)

/-- `ptrace.lock` is free. -/
def lockFree : Bool := w.locked.isNone ∧ w.pc ≠ .looping ∧ w.pc ≠ .checking

def sighandFree : Bool :=
  match w.pc with
  | .entry _ | .told => false
  | _ => true

/-- A `notify` of `ptrace.cond`. It reaches a task that is asleep. -/
def notified : Tracee := { w with pc := if w.pc = .sleeping then .woken else w.pc }

/-- The part of `deliver_signal_unlocked` before the notification: it does nothing more if the signal
is pending. -/
def deliverKill : Tracee :=
  if w.killPending then w else { w with killPending := true, notices := w.notices + 1 }

/-- The `send_signal` of `PTRACE_KILL`, and the `unlock` behind it. -/
def killStep : Tracee :=
  match w.killing with
  | some .going =>
    if w.sighandFree then
      if w.killPending then { w with locked := none, killing := none }
      else { w with killPending := true, killing := some .pending }
    else w
  | some .pending => { w.notified with killing := some .noticed }
  | some .noticed => if w.sighandFree then { w with locked := none, killing := none } else w
  | none => w

/-- `find_child`: the child, stopped. -/
def findChild (caller pid : ℕ) : Bool := caller = w.parent ∧ pid = w.pid ∧ w.stopped

/-- The size of `struct user_`. -/
def userSize : ℕ := 288

/-- `user_put` to the caller. -/
def putOut (data v : ℕ) : Tracee × ℤ :=
  match w.out data with
  | none => (w, -14)
  | some _ => ({ w with out := update w.out data (some v) }, 0)

/-- A return without the `unlock`. -/
def leak (caller : ℕ) (e : ℤ) : Tracee × ℤ := ({ w with locked := some caller }, e)

/-- `sys_ptrace` for a child that has been found. -/
def requestFound (caller : ℕ) (req : PtraceRequest) (addr data : ℕ) : Tracee × ℤ :=
  match req with
  | .peek =>
    match w.mem addr with
    | none => (w, -14)
    | some v => w.putOut data v
  | .peekuser =>
    if addr % 4 ≠ 0 ∨ userSize ≤ addr then w.leak caller (-5) else w.putOut data 0
  | .poke =>
    match w.mem addr with
    | none => (w, -14)
    | some _ => ({ w with mem := update w.mem addr (some data) }, 0)
  | .cont | .singlestep => ({ w.notified with stopped := false, granted := true }, 0)
  | .kill =>
    ({ w with stopped := false, granted := true, locked := some caller, killing := some .going }, 0)
  | .getregs | .getfpregs => w.putOut data 0
  | .setregs | .setfpregs =>
    match w.out data with
    | none => w.leak caller (-14)
    | some _ => (w, 0)
  | .getsiginfo =>
    if data = 0 then (w, 0)
    else
      match w.out data with
      | none => w.leak caller (-14)
      | some _ => w.putOut data w.info
  | .traceme | .setoptions | .other => (w, -1)

/-- `sys_ptrace`. A caller that has to wait for `ptrace.lock` has not made its request yet. -/
def request (caller : ℕ) (req : PtraceRequest) (pid addr data : ℕ) : Tracee × ℤ :=
  match req with
  | .traceme => ({ w with traced := w.traced || caller = w.pid }, 0)
  | .setoptions => (w, -22)
  | .other => (w, -1)
  | _ =>
    if w.findChild caller pid ∧ w.lockFree then w.requestFound caller req addr data else (w, -1)

/-- The end of `reap_if_needed`. The callers of `do_wait` get no other task than a leader. -/
def wait (options : WaitOptions) (others : Bool) : Tracee :=
  if w.leader ∧ ¬ others ∧ hasOption options wuntraced ∧ w.lockFree ∧ w.stopped ∧ w.signal ≠ 0 ∧
      ¬ hasOption options wnowait then
    { w with signal := 0, reports := w.reports + 1 }
  else w

end Tracee

def traceeStep (w : Tracee) : TraceeEvent → Tracee
  | .takeSignal sig =>
    if w.traced ∧ w.pc = .running ∧ sig ≠ 0 ∧ sig ≠ sigkill then { w with pc := .entry sig } else w
  | .enter info =>
    match w.pc with
    | .entry sig =>
      if w.lockFree then
        { w with pc := .told, stopped := true, signal := sig, info, granted := false, reports := 0 }
      else w
    | _ => w
  | .tell => if w.pc = .told ∧ ¬ w.sharesSighand w.parent then { w with pc := .unlocked } else w
  | .relock => if w.pc = .unlocked ∧ w.lockFree then { w with pc := .looping } else w
  | .turn =>
    if w.pc = .looping then { w with pc := if w.stopped then .sleeping else .leaving } else w
  | .spurious => w.notified
  | .wake => if w.pc = .woken ∧ w.lockFree then { w with pc := .checking } else w
  | .check =>
    if w.pc = .checking then { w with pc := if w.killPending then .exiting else .looping } else w
  | .leave => if w.pc = .leaving then { w with pc := .running } else w
  | .takeKill => if w.pc = .running ∧ w.killPending then { w with pc := .exiting } else w
  | .kill => if w.sighandFree ∧ w.pc ≠ .exiting then w.deliverKill else w
  | .notice => if 0 < w.notices then { w.notified with notices := w.notices - 1 } else w
  | .killStep => w.killStep
  | .request caller req pid addr data => (w.request caller req pid addr data).1
  | .wait options others => w.wait options others
  | .reparent new => if w.killing.isNone then { w with parent := new } else w
  | .user mem out => { w with mem, out }

def initTracee (pid parent : ℕ) (leader : Bool) (sharesSighand : ℕ → Bool)
    (mem out : ℕ → Option ℕ) : Tracee where
  pid := pid
  parent := parent
  leader := leader
  sharesSighand := sharesSighand
  traced := false
  pc := .running
  stopped := false
  signal := 0
  info := 0
  killPending := false
  notices := 0
  locked := none
  killing := none
  mem := mem
  out := out
  granted := false
  reports := 0

/-! ### What is kept -/

namespace Tracee

def resumes : PtraceRequest → Bool
  | .cont | .kill | .singlestep => true
  | _ => false

/-- The requests that keep `ptrace.lock`. -/
def leaks (w : Tracee) (req : PtraceRequest) (addr data : ℕ) : Bool :=
  match req with
  | .peekuser => addr % 4 ≠ 0 ∨ userSize ≤ addr
  | .setregs | .setfpregs => (w.out data).isNone
  | .getsiginfo => data ≠ 0 ∧ (w.out data).isNone
  | _ => false

def Coming (w : Tracee) : Prop :=
  0 < w.notices ∨ w.killing = some .pending ∨ w.killing = some .going ∧ w.killPending = false

/-- What is known of a stop while it lasts: a wait has taken it, or can; and only a request ends it. -/
structure Stopping (w : Tracee) : Prop where
  leader : w.leader = true
  report : w.reports = 0 ∧ w.signal ≠ 0 ∧ w.stopped = true ∨ w.reports = 1 ∧ w.signal = 0
  granted : w.stopped = false → w.granted = true
  killing : w.killing.isSome = true → w.stopped = false

def At (w : Tracee) : TraceePc → Prop
  | .running => w.stopped = false ∧ w.killing = none
  | .entry sig => w.stopped = false ∧ w.killing = none ∧ sig ≠ 0
  | .told => w.Stopping ∧ w.sharesSighand w.parent = false
  | .unlocked => w.Stopping
  | .looping => w.Stopping ∧ w.killing = none
  | .sleeping =>
    w.Stopping ∧ (w.killPending = true → w.signal = 0) ∧
      (w.killPending = true ∨ w.stopped = false → w.Coming)
  | .woken => w.Stopping ∧ (w.killPending = true → w.signal = 0)
  | .checking => w.Stopping ∧ w.killing = none ∧ (w.killPending = true → w.signal = 0)
  | .leaving => w.stopped = false ∧ w.killing = none ∧ w.granted = true ∧ w.reports = 1
  | .exiting => w.killing = none ∧ (w.stopped = true → w.reports = 1 ∧ w.signal = 0)

structure Inv (w : Tracee) : Prop where
  at_pc : w.At w.pc
  locked : w.locked.isSome = w.killing.isSome
  reports : w.reports ≤ 1

/-- The condition on a step. A stop is that of a leader with a signal table of its own; it is taken by
a wait before a request or a `SIGKILL` ends it; the task does not go to sleep with `SIGKILL` pending
that nobody is going to tell it of; and no request is made that keeps the lock, or for a task that
`SIGKILL` is ending. -/
def Cond (w : Tracee) : TraceeEvent → Prop
  | .enter _ => w.leader = true ∧ w.sharesSighand w.parent = false
  | .reparent new => w.pc = .told → w.sharesSighand new = false
  | .turn => w.pc = .looping → w.stopped = true → w.killPending = true →
      0 < w.notices ∧ w.signal = 0
  | .kill => w.pc.inStop = true → w.signal = 0
  | .request caller req pid addr data => w.findChild caller pid = true →
      w.pc ≠ .exiting ∧ w.leaks req addr data = false ∧ (resumes req = true → w.signal = 0)
  | _ => True

variable {w : Tracee}

lemma Inv.move (h : w.Inv) (pc : TraceePc) (hat : { w with pc }.At pc) : { w with pc }.Inv :=
  ⟨hat, h.locked, h.reports⟩

lemma Stopping.reported (h : w.Stopping) (hstopped : w.stopped = false) :
    w.reports = 1 ∧ w.signal = 0 := by
  obtain ⟨-, -, hs⟩ | hone := h.report
  · rw [hstopped] at hs
    cases hs
  · exact hone

lemma inv_takeSignal (h : w.Inv) (sig : ℕ) : (traceeStep w (.takeSignal sig)).Inv := by
  simp only [traceeStep]
  split_ifs with hc
  · have hat := h.at_pc
    rw [hc.2.1] at hat
    exact h.move (.entry sig) ⟨hat.1, hat.2, hc.2.2.1⟩
  · exact h

lemma inv_enter (h : w.Inv) (info : ℕ) (hcond : w.Cond (.enter info)) :
    (traceeStep w (.enter info)).Inv := by
  simp only [traceeStep]
  split
  · rename_i sig hpc
    split_ifs
    · have hat := h.at_pc
      rw [hpc] at hat
      obtain ⟨-, hkilling, hsig⟩ := hat
      refine ⟨⟨⟨hcond.1, .inl ⟨rfl, hsig, rfl⟩, nofun, fun hk => ?_⟩, hcond.2⟩, h.locked,
        Nat.zero_le 1⟩
      rw [hkilling] at hk
      cases hk
    · exact h
  · exact h

lemma inv_tell (h : w.Inv) : (traceeStep w .tell).Inv := by
  simp only [traceeStep]
  split_ifs with hc
  · have hat := h.at_pc
    rw [hc.1] at hat
    exact h.move .unlocked ⟨hat.1.leader, hat.1.report, hat.1.granted, hat.1.killing⟩
  · exact h

lemma Inv.killing_none (h : w.Inv) (hfree : w.lockFree = true) : w.killing = none := by
  simp only [lockFree, decide_eq_true_eq] at hfree
  have hlocked := h.locked
  rw [Option.isNone_iff_eq_none.1 hfree.1] at hlocked
  exact Option.isNone_iff_eq_none.1 (Option.isSome_eq_false_iff.1 hlocked.symm)

lemma inv_relock (h : w.Inv) : (traceeStep w .relock).Inv := by
  simp only [traceeStep]
  split_ifs with hc
  · have hat := h.at_pc
    rw [hc.1] at hat
    exact h.move .looping
      ⟨⟨hat.leader, hat.report, hat.granted, hat.killing⟩, h.killing_none hc.2⟩
  · exact h

lemma inv_turn (h : w.Inv) (hcond : w.Cond .turn) : (traceeStep w .turn).Inv := by
  simp only [traceeStep]
  by_cases hpc : w.pc = .looping
  · rw [if_pos hpc]
    have hat := h.at_pc
    rw [hpc] at hat
    obtain ⟨hstop, hkilling⟩ := hat
    by_cases hstopped : w.stopped = true
    · rw [if_pos hstopped]
      refine h.move .sleeping ⟨⟨hstop.leader, hstop.report, hstop.granted, hstop.killing⟩,
        fun hk => (hcond hpc hstopped hk).2, fun hk => .inl ?_⟩
      obtain hk | hk := hk
      · exact (hcond hpc hstopped hk).1
      · exact absurd (hk.symm.trans hstopped) nofun
    · rw [if_neg hstopped]
      have hfalse : w.stopped = false := Bool.eq_false_iff.2 hstopped
      exact h.move .leaving
        ⟨hfalse, hkilling, hstop.granted hfalse, (hstop.reported hfalse).1⟩
  · rw [if_neg hpc]
    exact h

lemma notified_of_ne (hpc : w.pc ≠ .sleeping) : w.notified = w := by
  unfold notified
  rw [if_neg hpc]

lemma notified_of_eq (hpc : w.pc = .sleeping) : w.notified = { w with pc := .woken } := by
  unfold notified
  rw [if_pos hpc]

lemma inv_notified (h : w.Inv) : w.notified.Inv := by
  by_cases hpc : w.pc = .sleeping
  · have hat := h.at_pc
    rw [hpc] at hat
    obtain ⟨hstop, hsig, -⟩ := hat
    rw [notified_of_eq hpc]
    exact h.move .woken ⟨⟨hstop.leader, hstop.report, hstop.granted, hstop.killing⟩, hsig⟩
  · rw [notified_of_ne hpc]
    exact h

lemma notified_pc_ne : w.notified.pc ≠ .sleeping := by
  by_cases hpc : w.pc = .sleeping
  · rw [notified_of_eq hpc]
    exact nofun
  · rw [notified_of_ne hpc]
    exact hpc

lemma inv_wake (h : w.Inv) : (traceeStep w .wake).Inv := by
  simp only [traceeStep]
  split_ifs with hc
  · have hat := h.at_pc
    rw [hc.1] at hat
    obtain ⟨hstop, hsig⟩ := hat
    exact h.move .checking
      ⟨⟨hstop.leader, hstop.report, hstop.granted, hstop.killing⟩, h.killing_none hc.2, hsig⟩
  · exact h

lemma inv_check (h : w.Inv) : (traceeStep w .check).Inv := by
  simp only [traceeStep]
  by_cases hpc : w.pc = .checking
  · rw [if_pos hpc]
    have hat := h.at_pc
    rw [hpc] at hat
    obtain ⟨hstop, hkilling, hsig⟩ := hat
    by_cases hpending : w.killPending = true
    · rw [if_pos hpending]
      refine h.move .exiting ⟨hkilling, fun _ => ?_⟩
      obtain ⟨-, hne, -⟩ | hone := hstop.report
      · exact absurd (hsig hpending) hne
      · exact hone
    · rw [if_neg hpending]
      exact h.move .looping
        ⟨⟨hstop.leader, hstop.report, hstop.granted, hstop.killing⟩, hkilling⟩
  · rw [if_neg hpc]
    exact h

lemma inv_leave (h : w.Inv) : (traceeStep w .leave).Inv := by
  simp only [traceeStep]
  split_ifs with hpc
  · have hat := h.at_pc
    rw [hpc] at hat
    exact h.move .running ⟨hat.1, hat.2.1⟩
  · exact h

lemma inv_takeKill (h : w.Inv) : (traceeStep w .takeKill).Inv := by
  simp only [traceeStep]
  split_ifs with hc
  · have hat := h.at_pc
    rw [hc.1] at hat
    exact h.move .exiting ⟨hat.2, fun hs => absurd (hat.1.symm.trans hs) nofun⟩
  · exact h

lemma inv_pending (h : w.Inv) {n : ℕ} (hsig : w.pc.inStop = true → w.signal = 0) (hn : 0 < n) :
    { w with killPending := true, notices := n }.Inv := by
  refine ⟨?_, h.locked, h.reports⟩
  have hat := h.at_pc
  change At { w with killPending := true, notices := n } w.pc
  cases hpc : w.pc with
  | running | entry | leaving | exiting =>
    rw [hpc] at hat
    exact hat
  | unlocked =>
    rw [hpc] at hat
    exact ⟨hat.leader, hat.report, hat.granted, hat.killing⟩
  | told | looping =>
    rw [hpc] at hat
    exact ⟨⟨hat.1.leader, hat.1.report, hat.1.granted, hat.1.killing⟩, hat.2⟩
  | sleeping =>
    rw [hpc] at hat hsig
    exact ⟨⟨hat.1.leader, hat.1.report, hat.1.granted, hat.1.killing⟩, fun _ => hsig rfl,
      fun _ => .inl hn⟩
  | woken =>
    rw [hpc] at hat hsig
    exact ⟨⟨hat.1.leader, hat.1.report, hat.1.granted, hat.1.killing⟩, fun _ => hsig rfl⟩
  | checking =>
    rw [hpc] at hat hsig
    exact ⟨⟨hat.1.leader, hat.1.report, hat.1.granted, hat.1.killing⟩, hat.2.1,
      fun _ => hsig rfl⟩

lemma inv_kill (h : w.Inv) (hcond : w.Cond .kill) : (traceeStep w .kill).Inv := by
  simp only [traceeStep, deliverKill]
  split_ifs
  · exact h
  · exact inv_pending h hcond (Nat.succ_pos _)
  · exact h

lemma inv_notices (h : w.Inv) (hpc : w.pc ≠ .sleeping) (n : ℕ) : { w with notices := n }.Inv := by
  refine ⟨?_, h.locked, h.reports⟩
  have hat := h.at_pc
  change At { w with notices := n } w.pc
  cases hw : w.pc with
  | running | entry | leaving | exiting =>
    rw [hw] at hat
    exact hat
  | unlocked =>
    rw [hw] at hat
    exact ⟨hat.leader, hat.report, hat.granted, hat.killing⟩
  | told | looping | woken | checking =>
    rw [hw] at hat
    exact ⟨⟨hat.1.leader, hat.1.report, hat.1.granted, hat.1.killing⟩, hat.2⟩
  | sleeping => exact absurd hw hpc

lemma inv_notice (h : w.Inv) : (traceeStep w .notice).Inv := by
  simp only [traceeStep]
  split_ifs
  · exact inv_notices (inv_notified h) notified_pc_ne _
  · exact h

/-- `PTRACE_KILL` goes on from one place to the next, and the task is in the stop without the mark. -/
lemma inv_killing (h : w.Inv) (hkilling : w.killing.isSome = true) (stage : Option KillStage)
    (locked : Option ℕ) (pending : Bool) (hlocked : locked.isSome = stage.isSome)
    (hcoming : w.pc = .sleeping →
      { w with killing := stage, locked, killPending := pending }.Coming) :
    { w with killing := stage, locked, killPending := pending }.Inv := by
  refine ⟨?_, hlocked, h.reports⟩
  have hat := h.at_pc
  have hnone {p : Prop} (hk : w.killing = none) : p := by
    rw [hk] at hkilling
    cases hkilling
  have hstop (hs : w.Stopping) (pc : TraceePc) :
      { w with pc, killing := stage, locked, killPending := pending }.Stopping :=
    ⟨hs.leader, hs.report, hs.granted, fun _ => hs.killing hkilling⟩
  have hsig (hs : w.Stopping) : w.signal = 0 := (hs.reported (hs.killing hkilling)).2
  change At { w with killing := stage, locked, killPending := pending } w.pc
  cases hw : w.pc with
  | running =>
    rw [hw] at hat
    exact hnone hat.2
  | entry | leaving =>
    rw [hw] at hat
    exact hnone hat.2.1
  | exiting =>
    rw [hw] at hat
    exact hnone hat.1
  | told =>
    rw [hw] at hat
    exact ⟨hstop hat.1 .told, hat.2⟩
  | unlocked =>
    rw [hw] at hat
    exact hstop hat .unlocked
  | looping =>
    rw [hw] at hat
    exact hnone hat.2
  | sleeping =>
    rw [hw] at hat
    exact ⟨hstop hat.1 .sleeping, fun _ => hsig hat.1, fun _ => hcoming hw⟩
  | woken =>
    rw [hw] at hat
    exact ⟨hstop hat.1 .woken, fun _ => hsig hat.1⟩
  | checking =>
    rw [hw] at hat
    exact hnone hat.2.1

lemma Inv.coming (h : w.Inv) (hkilling : w.killing.isSome = true) (hpc : w.pc = .sleeping) :
    w.Coming := by
  have hat := h.at_pc
  rw [hpc] at hat
  exact hat.2.2 (.inr (hat.1.killing hkilling))

lemma inv_killStep (h : w.Inv) : (traceeStep w .killStep).Inv := by
  simp only [traceeStep, killStep]
  cases hkilling : w.killing with
  | none => exact h
  | some stage =>
    have hsome : w.killing.isSome = true := by rw [hkilling]; rfl
    cases stage with
    | going =>
      simp only
      split_ifs with hfree hpending
      · refine inv_killing h hsome none none w.killPending rfl fun hpc => ?_
        obtain hn | hk | ⟨-, hk⟩ := h.coming hsome hpc
        · exact .inl hn
        · rw [hkilling] at hk
          cases hk
        · exact absurd (hk.symm.trans hpending) nofun
      · exact inv_killing h hsome (some .pending) w.locked true
          (h.locked.trans hsome) fun _ => .inr (.inl rfl)
      · exact h
    | pending =>
      have h' := inv_notified h
      refine inv_killing h' ?_ (some .noticed) w.notified.locked w.notified.killPending ?_
        fun hpc => absurd hpc notified_pc_ne
      · exact hsome
      · exact h.locked.trans hsome
    | noticed =>
      simp only
      split_ifs
      · refine inv_killing h hsome none none w.killPending rfl fun hpc => ?_
        obtain hn | hk | ⟨hk, -⟩ := h.coming hsome hpc
        · exact .inl hn
        · rw [hkilling] at hk
          cases hk
        · rw [hkilling] at hk
          cases hk
      · exact h

lemma inv_memory (h : w.Inv) (mem out : ℕ → Option ℕ) : { w with mem, out }.Inv := by
  refine ⟨?_, h.locked, h.reports⟩
  have hat := h.at_pc
  change At { w with mem, out } w.pc
  cases hw : w.pc with
  | running | entry | leaving | exiting =>
    rw [hw] at hat
    exact hat
  | unlocked =>
    rw [hw] at hat
    exact ⟨hat.leader, hat.report, hat.granted, hat.killing⟩
  | told | looping | woken | checking | sleeping =>
    rw [hw] at hat
    exact ⟨⟨hat.1.leader, hat.1.report, hat.1.granted, hat.1.killing⟩, hat.2⟩

lemma inv_resume (h : w.Inv) (hstopped : w.stopped = true) (hpc : w.pc ≠ .exiting)
    (hfree : w.lockFree = true) (hsig : w.signal = 0) (stage : Option KillStage)
    (locked : Option ℕ) (hlocked : locked.isSome = stage.isSome)
    (hcoming : w.pc = .sleeping → { w with killing := stage }.Coming) :
    { w with stopped := false, granted := true, killing := stage, locked }.Inv := by
  have hfree' := hfree
  simp only [lockFree, decide_eq_true_eq] at hfree'
  have hstop (hs : w.Stopping) (pc : TraceePc) :
      { w with pc, stopped := false, granted := true, killing := stage, locked }.Stopping := by
    refine ⟨hs.leader, .inr ?_, fun _ => rfl, fun _ => rfl⟩
    obtain ⟨-, hne, -⟩ | hone := hs.report
    · exact absurd hsig hne
    · exact hone
  have hone (hs : w.stopped = false) {p : Prop} : p := by
    rw [hstopped] at hs
    cases hs
  refine ⟨?_, hlocked, h.reports⟩
  have hat := h.at_pc
  change At { w with stopped := false, granted := true, killing := stage, locked } w.pc
  cases hw : w.pc with
  | running | entry | leaving =>
    rw [hw] at hat
    exact hone hat.1
  | told =>
    rw [hw] at hat
    exact ⟨hstop hat.1 .told, hat.2⟩
  | unlocked =>
    rw [hw] at hat
    exact hstop hat .unlocked
  | looping => exact absurd hw hfree'.2.1
  | sleeping =>
    rw [hw] at hat
    exact ⟨hstop hat.1 .sleeping, fun _ => hsig, fun _ => hcoming hw⟩
  | woken =>
    rw [hw] at hat
    exact ⟨hstop hat.1 .woken, fun _ => hsig⟩
  | checking => exact absurd hw hfree'.2.2
  | exiting => exact absurd hw hpc

lemma inv_putOut (h : w.Inv) (data v : ℕ) : (w.putOut data v).1.Inv := by
  unfold putOut
  split
  · exact h
  · exact inv_memory h w.mem _

lemma inv_cont (h : w.Inv) (hstopped : w.stopped = true) (hpc : w.pc ≠ .exiting)
    (hfree : w.lockFree = true) (hsig : w.signal = 0) :
    { w.notified with stopped := false, granted := true }.Inv := by
  have hnone := h.killing_none hfree
  by_cases hs : w.pc = .sleeping
  · have h' := inv_notified h
    rw [notified_of_eq hs] at h' ⊢
    refine inv_resume h' hstopped nofun ?_ hsig w.killing w.locked h.locked nofun
    simp only [lockFree, decide_eq_true_eq] at hfree ⊢
    exact ⟨hfree.1, nofun, nofun⟩
  · rw [notified_of_ne hs]
    exact inv_resume h hstopped hpc hfree hsig w.killing w.locked h.locked fun hw => absurd hw hs

lemma inv_requestFound (h : w.Inv) {caller pid : ℕ} {req : PtraceRequest} {addr data : ℕ}
    (hfound : w.findChild caller pid = true) (hfree : w.lockFree = true)
    (hpc : w.pc ≠ .exiting) (hleaks : w.leaks req addr data = false)
    (hsig : resumes req = true → w.signal = 0) :
    (w.requestFound caller req addr data).1.Inv := by
  simp only [findChild, decide_eq_true_eq] at hfound
  obtain ⟨-, -, hstopped⟩ := hfound
  cases req with
  | traceme | setoptions | other => exact h
  | peek =>
    simp only [requestFound]
    split
    · exact h
    · exact inv_putOut h _ _
  | peekuser =>
    simp only [leaks, decide_eq_false_iff_not] at hleaks
    simp only [requestFound, if_neg hleaks]
    exact inv_putOut h _ _
  | poke =>
    simp only [requestFound]
    split
    · exact h
    · exact inv_memory h _ w.out
  | cont | singlestep => exact inv_cont h hstopped hpc hfree (hsig rfl)
  | kill =>
    refine inv_resume h hstopped hpc hfree (hsig rfl) (some .going) (some caller) rfl fun hw => ?_
    by_cases hpending : w.killPending = true
    · have hat := h.at_pc
      rw [hw] at hat
      obtain hn | hk | ⟨hk, -⟩ := hat.2.2 (.inl hpending)
      · exact .inl hn
      · rw [h.killing_none hfree] at hk
        cases hk
      · rw [h.killing_none hfree] at hk
        cases hk
    · exact .inr (.inr ⟨rfl, Bool.eq_false_iff.2 hpending⟩)
  | getregs | getfpregs => exact inv_putOut h _ _
  | setregs | setfpregs =>
    simp only [requestFound]
    split
    · rename_i hout
      simp [leaks, hout] at hleaks
    · exact h
  | getsiginfo =>
    simp only [requestFound]
    split_ifs with hdata
    · exact h
    · split
      · rename_i hout
        simp [leaks, hout, hdata] at hleaks
      · exact inv_putOut h _ _

lemma inv_traceme (h : w.Inv) (traced : Bool) : { w with traced }.Inv := by
  refine ⟨?_, h.locked, h.reports⟩
  have hat := h.at_pc
  change At { w with traced } w.pc
  cases hw : w.pc with
  | running | entry | leaving | exiting =>
    rw [hw] at hat
    exact hat
  | unlocked =>
    rw [hw] at hat
    exact ⟨hat.leader, hat.report, hat.granted, hat.killing⟩
  | told | looping | woken | checking | sleeping =>
    rw [hw] at hat
    exact ⟨⟨hat.1.leader, hat.1.report, hat.1.granted, hat.1.killing⟩, hat.2⟩

lemma request_of_ne {caller : ℕ} {req : PtraceRequest} {pid addr data : ℕ} (hreq : req ≠ .traceme)
    (hfound : ¬ (w.findChild caller pid = true ∧ w.lockFree = true)) :
    (w.request caller req pid addr data).1 = w := by
  cases req with
  | traceme => exact absurd rfl hreq
  | setoptions | other => rfl
  | _ => simp only [request, if_neg hfound]

lemma inv_request (h : w.Inv) (caller : ℕ) (req : PtraceRequest) (pid addr data : ℕ)
    (hcond : w.Cond (.request caller req pid addr data)) :
    (traceeStep w (.request caller req pid addr data)).Inv := by
  simp only [traceeStep]
  by_cases hreq : req = .traceme
  · rw [hreq]
    exact inv_traceme h _
  by_cases hfound : w.findChild caller pid = true ∧ w.lockFree = true
  · obtain ⟨hpc, hleaks, hsig⟩ := hcond hfound.1
    have h' := inv_requestFound h hfound.1 hfound.2 hpc hleaks hsig
    cases req with
    | traceme => exact absurd rfl hreq
    | setoptions | other => exact h
    | _ =>
      simp only [request, if_pos hfound]
      exact h'
  · rw [request_of_ne hreq hfound]
    exact h

lemma inv_wait (h : w.Inv) (options : WaitOptions) (others : Bool) :
    (traceeStep w (.wait options others)).Inv := by
  simp only [traceeStep, wait]
  split_ifs with hc
  · obtain ⟨-, -, -, hfree, hstopped, hsig, -⟩ := hc
    simp only [lockFree, decide_eq_true_eq] at hfree
    have hat := h.at_pc
    have hzero (hs : w.Stopping) : w.reports = 0 := by
      obtain ⟨hzero, -⟩ | ⟨-, hs⟩ := hs.report
      · exact hzero
      · exact absurd hs hsig
    have hstop (hs : w.Stopping) (pc : TraceePc) :
        { w with pc, signal := 0, reports := w.reports + 1 }.Stopping :=
      ⟨hs.leader, .inr ⟨by rw [hzero hs], rfl⟩, hs.granted, hs.killing⟩
    have hmark (hs : w.stopped = false) {p : Prop} : p := by
      rw [hstopped] at hs
      cases hs
    have hle (hs : w.Stopping) : w.reports + 1 ≤ 1 := by rw [hzero hs]
    cases hw : w.pc with
    | running | entry | leaving =>
      rw [hw] at hat
      exact hmark hat.1
    | told =>
      rw [hw] at hat
      exact ⟨⟨hstop hat.1 .told, hat.2⟩, h.locked, hle hat.1⟩
    | unlocked =>
      rw [hw] at hat
      exact ⟨hstop hat .unlocked, h.locked, hle hat⟩
    | looping => exact absurd hw hfree.2.1
    | sleeping =>
      rw [hw] at hat
      exact ⟨⟨hstop hat.1 .sleeping, fun _ => rfl, hat.2.2⟩, h.locked, hle hat.1⟩
    | woken =>
      rw [hw] at hat
      exact ⟨⟨hstop hat.1 .woken, fun _ => rfl⟩, h.locked, hle hat.1⟩
    | checking => exact absurd hw hfree.2.2
    | exiting =>
      rw [hw] at hat
      exact absurd (hat.2 hstopped).2 hsig
  · exact h

lemma inv_reparent (h : w.Inv) (new : ℕ) (hcond : w.Cond (.reparent new)) :
    (traceeStep w (.reparent new)).Inv := by
  simp only [traceeStep]
  split_ifs
  · refine ⟨?_, h.locked, h.reports⟩
    have hat := h.at_pc
    change At { w with parent := new } w.pc
    cases hw : w.pc with
    | running | entry | leaving | exiting =>
      rw [hw] at hat
      exact hat
    | unlocked =>
      rw [hw] at hat
      exact ⟨hat.leader, hat.report, hat.granted, hat.killing⟩
    | told =>
      rw [hw] at hat
      exact ⟨⟨hat.1.leader, hat.1.report, hat.1.granted, hat.1.killing⟩, hcond hw⟩
    | looping | woken | checking | sleeping =>
      rw [hw] at hat
      exact ⟨⟨hat.1.leader, hat.1.report, hat.1.granted, hat.1.killing⟩, hat.2⟩
  · exact h

lemma inv_traceeStep (h : w.Inv) {e : TraceeEvent} (hcond : w.Cond e) : (traceeStep w e).Inv := by
  cases e with
  | takeSignal sig => exact inv_takeSignal h sig
  | enter info => exact inv_enter h info hcond
  | tell => exact inv_tell h
  | relock => exact inv_relock h
  | turn => exact inv_turn h hcond
  | spurious => exact inv_notified h
  | wake => exact inv_wake h
  | check => exact inv_check h
  | leave => exact inv_leave h
  | takeKill => exact inv_takeKill h
  | kill => exact inv_kill h hcond
  | notice => exact inv_notice h
  | killStep => exact inv_killStep h
  | request caller req pid addr data => exact inv_request h caller req pid addr data hcond
  | wait options others => exact inv_wait h options others
  | reparent new => exact inv_reparent h new hcond
  | user mem out => exact inv_memory h mem out

lemma inv_initTracee (pid parent : ℕ) (leader : Bool) (sharesSighand : ℕ → Bool)
    (mem out : ℕ → Option ℕ) : (initTracee pid parent leader sharesSighand mem out).Inv :=
  ⟨⟨rfl, rfl⟩, rfl, Nat.zero_le 1⟩

/-! ### What is promised of a stop -/

def Reportable (w : Tracee) : Prop :=
  ∀ options, hasOption options wuntraced = true → hasOption options wnowait = false →
    w.lockFree = true → (w.wait options false).reports = 1

structure TraceSafe (w : Tracee) : Prop where
  reported : w.reports ≤ 1
  reportable : w.pc.inStop = true → w.reports = 0 → w.Reportable
  resumed : w.pc = .leaving → w.granted = true ∧ w.reports = 1
  killed : w.pc = .exiting → w.stopped = true → w.reports = 1
  awake : w.pc = .sleeping → w.killPending = true ∨ w.stopped = false → w.Coming
  noCycle : w.killing.isSome = true → ∀ sig, w.pc ≠ .entry sig
  noSelf : w.pc = .told → w.sharesSighand w.parent = false
  released : w.locked.isSome = w.killing.isSome

/-- A request for a task that is not a stopped child of the caller changes nothing. -/
def Untouched (w : Tracee) : TraceeEvent → Prop
  | .request caller req pid addr data => req ≠ .traceme →
      ¬ (caller = w.parent ∧ pid = w.pid ∧ w.pc.inStop = true ∧ w.stopped = true) →
      traceeStep w (.request caller req pid addr data) = w
  | _ => True

lemma Inv.reportable (h : w.Inv) (hpc : w.pc.inStop = true) (hzero : w.reports = 0) :
    w.Reportable := by
  have hstop : w.Stopping := by
    have hat := h.at_pc
    cases hw : w.pc with
    | running | entry | leaving | exiting =>
      rw [hw] at hpc
      cases hpc
    | unlocked =>
      rw [hw] at hat
      exact hat
    | told | looping | sleeping | woken | checking =>
      rw [hw] at hat
      exact hat.1
  intro options huntraced hnowait hfree
  have hreport : w.signal ≠ 0 ∧ w.stopped = true := by
    obtain ⟨-, hne, hs⟩ | ⟨hone, -⟩ := hstop.report
    · exact ⟨hne, hs⟩
    · rw [hzero] at hone
      cases hone
  have hc : w.leader ∧ ¬ (false = true) ∧ hasOption options wuntraced ∧ w.lockFree ∧ w.stopped ∧
      w.signal ≠ 0 ∧ ¬ hasOption options wnowait :=
    ⟨hstop.leader, Bool.false_ne_true, huntraced, hfree, hreport.2, hreport.1,
      by rw [hnowait]; exact Bool.false_ne_true⟩
  simp only [wait, if_pos hc, hzero]

lemma Inv.traceSafe (h : w.Inv) : w.TraceSafe where
  reported := h.reports
  reportable := h.reportable
  resumed hpc := by
    have hat := h.at_pc
    rw [hpc] at hat
    exact hat.2.2
  killed hpc hstopped := by
    have hat := h.at_pc
    rw [hpc] at hat
    exact (hat.2 hstopped).1
  awake hpc := by
    have hat := h.at_pc
    rw [hpc] at hat
    exact hat.2.2
  noCycle hkilling sig hpc := by
    have hat := h.at_pc
    rw [hpc] at hat
    rw [hat.2.1] at hkilling
    cases hkilling
  noSelf hpc := by
    have hat := h.at_pc
    rw [hpc] at hat
    exact hat.2
  released := h.locked

lemma Inv.untouched (h : w.Inv) {e : TraceeEvent} (hcond : w.Cond e) : w.Untouched e := by
  cases e with
  | request caller req pid addr data =>
    intro hreq hnot
    refine request_of_ne hreq fun hfound => hnot ?_
    have hpc := (hcond hfound.1).1
    have hc := hfound.1
    simp only [findChild, decide_eq_true_eq] at hc
    refine ⟨hc.1, hc.2.1, ?_, hc.2.2⟩
    have hat := h.at_pc
    cases hw : w.pc with
    | running | entry | leaving =>
      rw [hw] at hat
      exact absurd (hat.1.symm.trans hc.2.2) nofun
    | exiting => exact absurd hw hpc
    | _ => rfl
  | _ => trivial

end Tracee

/-- **Traced stops**: where stops are those of leaders with a signal table of their own, are waited
for before they are ended, and are not entered with a `SIGKILL` that has already been told; and where
no request fails with the lock taken, or is made for a task that is being killed; each stop is
reported exactly once, ended by a request, and left by a task that is killed; no locks are waited for
in a circle or kept; and a request for any other task changes nothing. -/
theorem traced_stops_safe {pid parent : ℕ} {leader : Bool} {sharesSighand : ℕ → Bool}
    {mem out : ℕ → Option ℕ} {es : List TraceeEvent}
    (hes : RunAll traceeStep Tracee.Cond (initTracee pid parent leader sharesSighand mem out) es) :
    (run traceeStep (initTracee pid parent leader sharesSighand mem out) es).TraceSafe ∧
      ∀ e, (run traceeStep (initTracee pid parent leader sharesSighand mem out) es).Cond e →
        (run traceeStep (initTracee pid parent leader sharesSighand mem out) es).Untouched e := by
  have hinv : (run traceeStep (initTracee pid parent leader sharesSighand mem out) es).Inv :=
    run_invariant (P := Tracee.Inv) (fun _ _ hcond h => Tracee.inv_traceeStep h hcond) hes
      (Tracee.inv_initTracee pid parent leader sharesSighand mem out)
  exact ⟨hinv.traceSafe, fun e hcond => hinv.untouched hcond⟩

/-- A child of the first process; its parent has all memory but a page at 0. -/
def tracedChild (sharesSighand : Bool) : Tracee :=
  initTracee 2 1 true (fun _ => sharesSighand) (fun _ => some 0)
    (fun a => if a < 4096 then none else some 0)

/-- A child is stopped, waited for, looked at and continued; then it is killed. -/
theorem traced_stops_safe_child : (run traceeStep (tracedChild false)
    [.request 2 .traceme 0 0 0, .takeSignal 19, .enter 7, .tell, .relock, .turn,
      .wait wuntraced false, .request 1 .peek 2 8 4096, .request 1 .cont 2 0 0, .wake, .check,
      .turn, .leave, .kill, .notice, .takeKill]).TraceSafe := by
  apply (traced_stops_safe _).1
  refine ⟨fun h => absurd h (by decide), trivial, ⟨rfl, rfl⟩, trivial, trivial,
    fun _ _ h => absurd h (by decide), trivial, fun _ => ⟨nofun, rfl, nofun⟩,
    fun _ => ⟨nofun, rfl, fun _ => rfl⟩, trivial, trivial, fun _ h => absurd h (by decide), trivial,
    fun h => absurd h (by decide), trivial, trivial, trivial⟩

def toSleep : List TraceeEvent :=
  [.request 2 .traceme 0 0 0, .takeSignal 19, .enter 0, .tell, .relock]

/-- A request for a part of the registers that does not exist keeps the lock; a `SIGKILL` that comes
just before the sleep is not noticed; a child that shares the signal table of its parent waits for
itself; a child that is being killed can be continued; and a stop that is continued at once is not
reported. -/
theorem traced_stops_unsafe :
    ¬ (run traceeStep (tracedChild false)
        (toSleep ++ [.turn, .request 1 .peekuser 2 1 4096])).TraceSafe ∧
      ¬ (run traceeStep (tracedChild false) (toSleep ++ [.kill, .notice, .turn])).TraceSafe ∧
      ¬ (run traceeStep (tracedChild true)
        [.request 2 .traceme 0 0 0, .takeSignal 19, .enter 0]).TraceSafe ∧
      ¬ (run traceeStep (tracedChild false) (toSleep ++ [.turn, .wait wuntraced false, .kill,
        .notice, .wake, .check])).Untouched (.request 1 .cont 2 0 0) ∧
      ¬ (run traceeStep (tracedChild false)
        (toSleep ++ [.turn, .request 1 .cont 2 0 0, .wake, .check, .turn])).TraceSafe := by
  refine ⟨fun h => ?_, fun h => ?_, fun h => ?_, fun h => ?_, fun h => ?_⟩
  · exact absurd h.released (by decide)
  · obtain hn | hk | ⟨hk, -⟩ := h.awake (by decide) (.inl (by decide))
    · exact absurd hn (by decide)
    · exact absurd hk (by decide)
    · exact absurd hk (by decide)
  · exact absurd (h.noSelf (by decide)) (by decide)
  · have hsame := h nofun (fun hc => absurd hc.2.2.1 (by decide))
    have hstopped := congrArg Tracee.stopped hsame
    exact absurd hstopped (by decide)
  · exact absurd (h.resumed (by decide)).2 (by decide)

end ShellBox
