import ShellBox.Kernel.Signal
import ShellBox.Logic.Loop

/-!
# Sleeping until a condition or a signal

`wait_for` looks for a pending signal, records the condition it is going to sleep on, and sleeps.
Whoever delivers a signal marks it pending, and then notifies the recorded condition, if there is
one. The mutex of the sleeper is not taken for this, so what the sender does can fall between the
sleeper's steps, unless that mutex is the signal lock itself.

A notification is outstanding from the moment a signal is marked until the sender has looked for
the recorded condition.
-/

namespace ShellBox

/-- Where a task is in `wait_for`. A task that is back from `pthread_cond_wait` knows if its time
ran out; `signalled` is not in the source: it says that the sender of a signal woke it. -/
inductive WaitPhase
  | outside
  | entered (cond : ℕ)
  | checked (cond : ℕ)
  | published (cond : ℕ)
  | sleeping (cond : ℕ)
  | woken (timedOut signalled : Bool)
  | locked (timedOut signalled : Bool)
  | forgotten (timedOut signalled : Bool)
  deriving DecidableEq, Repr

inductive WaitRet
  | success | eintr | etimedout
  deriving DecidableEq, Repr

structure WaitReturn where
  ret : WaitRet
  signalled : Bool
  deriving DecidableEq

/-- A task, its wait, and the senders that have marked a signal but not yet notified. -/
structure SyncWorld where
  task : SignalTask
  phase : WaitPhase := .outside
  /-- The mutex of the wait is `sighand->lock`. -/
  ownLock : Bool := false
  /-- The wait has a timeout. -/
  timed : Bool := false
  /-- The task holds `sighand->lock`. -/
  holds : Bool := false
  waitingCond : Option ℕ := none
  marked : ℕ := 0
  returned : List WaitReturn := []

inductive SyncAct
  /-- The task does something else, outside of `wait_for`. -/
  | other (a : SignalAct)
  | acquire
  | release
  | waitFor (cond : ℕ) (ownLock timed : Bool)
  /-- The next step of the task in `wait_for`. -/
  | proceed
  /-- `deliver_signal` from another thread, until it has marked the signal. -/
  | deliver (sig : ℕ)
  /-- The same of `send_signal`. -/
  | send (sig : ℕ)
  /-- A sender that has marked a signal looks for the recorded condition. -/
  | notifyWaiting
  /-- Somebody notifies a condition, or `pthread_cond_wait` returns by itself. -/
  | notify (cond : ℕ)
  | timeOut

def isSignalPending (t : SignalTask) : Bool := (t.pending \ t.blocked).Nonempty

/-- `deliver_signal_unlocked` goes on to wake the task. -/
def deliveryWakes (t : SignalTask) (sig : ℕ) : Bool :=
  ¬ (sig < sigrtmin ∧ sig ∈ t.pending) ∧ ¬ (sig ∈ t.blocked \ t.waiting ∧ sig ∉ unblockableMask)

namespace SyncWorld

/-- `wait_for` returns. -/
def ret (w : SyncWorld) (r : WaitRet) (signalled : Bool) : SyncWorld :=
  { w with
    phase := .outside
    returned := w.returned ++ [{ ret := r, signalled := signalled }] }

/-- A step of `wait_for`. While it sleeps the task does nothing. -/
def proceed (w : SyncWorld) : SyncWorld :=
  match w.phase with
  | .outside => w
  | .entered cond =>
    if isSignalPending w.task then w.ret .eintr false else { w with phase := .checked cond }
  | .checked cond => { w with waitingCond := some cond, phase := .published cond }
  | .published cond => { w with holds := false, phase := .sleeping cond }
  | .sleeping _ => w
  | .woken timedOut signalled => { w with holds := w.ownLock, phase := .locked timedOut signalled }
  | .locked timedOut signalled =>
    { w with waitingCond := none, phase := .forgotten timedOut signalled }
  | .forgotten timedOut signalled =>
    if timedOut then w.ret .etimedout signalled
    else if isSignalPending w.task then w.ret .eintr signalled
    else w.ret .success signalled

/-- The part of `deliver_signal_unlocked` under the signal lock. -/
def mark (w : SyncWorld) (sig : ℕ) : SyncWorld :=
  { w with
    task := w.task.deliverSignalUnlocked sig
    marked := if deliveryWakes w.task sig then w.marked + 1 else w.marked }

/-- `pthread_cond_broadcast`, seen by the task. -/
def broadcast (w : SyncWorld) (cond : ℕ) (signalled : Bool) : SyncWorld :=
  if w.phase = .sleeping cond then { w with phase := .woken false signalled } else w

/-- The part of `deliver_signal_unlocked` under `waiting_cond_lock`. -/
def notifyWaiting (w : SyncWorld) : SyncWorld :=
  match w.waitingCond with
  | some cond => { w with marked := w.marked - 1 }.broadcast cond (isSignalPending w.task)
  | none      => { w with marked := w.marked - 1 }

def step (h : SignalHost) (w : SyncWorld) : SyncAct → SyncWorld
  | .other a => if w.phase = .outside then { w with task := w.task.step h a } else w
  | .acquire => if w.phase = .outside then { w with holds := true } else w
  | .release => if w.phase = .outside then { w with holds := false } else w
  | .waitFor cond ownLock timed =>
    if w.phase = .outside ∧ ownLock = w.holds then
      { w with phase := .entered cond, ownLock := ownLock, timed := timed }
    else w
  | .proceed => w.proceed
  | .deliver sig => if w.holds then w else w.mark sig
  | .send sig =>
    if w.holds ∨ sig = 0 ∨ w.task.exited ∨ signalAction w.task.action sig = .ignore then w
    else w.mark sig
  | .notifyWaiting => if w.marked = 0 then w else w.notifyWaiting
  | .notify cond => w.broadcast cond false
  | .timeOut =>
    match w.phase with
    | .sleeping _ => if w.timed then { w with phase := .woken true false } else w
    | _ => w

/-- The task sleeps although a signal is pending for it, and nobody is going to wake it. -/
def Stranded (w : SyncWorld) : Prop :=
  ∃ cond, w.phase = .sleeping cond ∧ isSignalPending w.task = true ∧ w.marked = 0

end SyncWorld

namespace WaitPhase

def unaware : WaitPhase → Bool
  | checked _ | published _ | sleeping _ => true
  | _ => false

def between : WaitPhase → Bool
  | checked _ | published _ => true
  | _ => false

/-- The task has called `wait_for` and does not sleep yet. -/
def before : WaitPhase → Bool
  | entered _ | checked _ | published _ => true
  | _ => false

def recorded : WaitPhase → Option ℕ
  | published cond | sleeping cond => some cond
  | _ => none

def afterSignal : WaitPhase → Option Bool
  | woken timedOut true | locked timedOut true | forgotten timedOut true => some timedOut
  | _ => none

end WaitPhase

namespace SyncWorld

/-- The last sender that could wake the task does not look for the condition between the task's
look for signals and its sleep, unless the task holds the signal lock there. -/
def Admits (w : SyncWorld) : SyncAct → Prop
  | .notifyWaiting => w.phase.between = true → w.ownLock = false →
      isSignalPending w.task = true → w.marked ≠ 1
  | _ => True

structure Inv (w : SyncWorld) : Prop where
  recorded : ∀ cond, w.phase.recorded = some cond → w.waitingCond = some cond
  awaited : w.phase.unaware = true → isSignalPending w.task = true → 0 < w.marked
  holds : w.phase.before = true → w.ownLock = true → w.holds = true
  between : w.phase.between = true → w.ownLock = true → isSignalPending w.task = false
  signalled : ∀ timedOut, w.phase.afterSignal = some timedOut →
    timedOut = false ∧ isSignalPending w.task = true
  returned : ∀ r ∈ w.returned, r.signalled = true → r.ret = .eintr

/-! ### What a delivery does to the task -/

lemma isSignalPending_iff {t : SignalTask} :
    isSignalPending t = true ↔ ∃ s ∈ t.pending, s ∉ t.blocked := by
  simp [isSignalPending, Finset.Nonempty]

lemma pending_deliver (t : SignalTask) (sig : ℕ) :
    (t.deliverSignalUnlocked sig).blocked = t.blocked ∧
      ((t.deliverSignalUnlocked sig).pending = t.pending ∧ sig < sigrtmin ∧ sig ∈ t.pending ∨
        (t.deliverSignalUnlocked sig).pending = insert sig t.pending ∧
          ¬ (sig < sigrtmin ∧ sig ∈ t.pending)) := by
  unfold SignalTask.deliverSignalUnlocked
  split_ifs with h
  · exact ⟨rfl, Or.inl ⟨rfl, h⟩⟩
  · have heq : ∀ u : SignalTask, (u.enqueue sig).blocked = u.blocked ∧
        (u.enqueue sig).pending = u.pending := by
      intro u
      unfold SignalTask.enqueue
      split <;> exact ⟨rfl, rfl⟩
    exact ⟨(heq _).1, Or.inr ⟨(heq _).2, h⟩⟩

lemma isSignalPending_deliver {t : SignalTask} (h : isSignalPending t = true) (sig : ℕ) :
    isSignalPending (t.deliverSignalUnlocked sig) = true := by
  obtain ⟨s, hs, hb⟩ := isSignalPending_iff.1 h
  obtain ⟨hblocked, ⟨hp, -⟩ | ⟨hp, -⟩⟩ := pending_deliver t sig
  · exact isSignalPending_iff.2 ⟨s, hp ▸ hs, hblocked ▸ hb⟩
  · exact isSignalPending_iff.2 ⟨s, hp ▸ Finset.mem_insert_of_mem hs, hblocked ▸ hb⟩

lemma wakes_of_isSignalPending {t : SignalTask} {sig : ℕ}
    (h : isSignalPending (t.deliverSignalUnlocked sig) = true) :
    isSignalPending t = true ∨ deliveryWakes t sig = true := by
  obtain ⟨s, hs, hb⟩ := isSignalPending_iff.1 h
  obtain ⟨hblocked, ⟨hp, -⟩ | ⟨hp, hnew⟩⟩ := pending_deliver t sig
  · exact Or.inl (isSignalPending_iff.2 ⟨s, hp ▸ hs, hblocked ▸ hb⟩)
  · rw [hp, Finset.mem_insert] at hs
    rw [hblocked] at hb
    rcases hs with rfl | hs
    · right
      simp [deliveryWakes, hnew, hb]
    · exact Or.inl (isSignalPending_iff.2 ⟨s, hs, hb⟩)

/-! ### Steps -/

variable {w : SyncWorld}

lemma Inv.of_outside (hp : w.phase = .outside)
    (hr : ∀ r ∈ w.returned, r.signalled = true → r.ret = .eintr) : w.Inv := by
  constructor
  · simp [hp, WaitPhase.recorded]
  · simp [hp, WaitPhase.unaware]
  · simp [hp, WaitPhase.before]
  · simp [hp, WaitPhase.between]
  · simp [hp, WaitPhase.afterSignal]
  · exact hr

lemma Inv.ret (h : w.Inv) {r : WaitRet} {signalled : Bool}
    (hr : signalled = true → r = .eintr) : (w.ret r signalled).Inv := by
  refine Inv.of_outside rfl fun x hx hs => ?_
  rcases List.mem_append.1 hx with hx | hx
  · exact h.returned x hx hs
  · rw [List.mem_singleton.1 hx] at hs ⊢
    exact hr hs

lemma Inv.of_awake {timedOut signalled : Bool}
    (hp : w.phase = .woken timedOut signalled ∨ w.phase = .locked timedOut signalled ∨
      w.phase = .forgotten timedOut signalled)
    (hs : signalled = true → timedOut = false ∧ isSignalPending w.task = true)
    (hr : ∀ r ∈ w.returned, r.signalled = true → r.ret = .eintr) : w.Inv := by
  have hafter : ∀ b, w.phase.afterSignal = some b → signalled = true ∧ timedOut = b := by
    intro b hb
    rcases hp with hp | hp | hp <;> rw [hp] at hb <;> cases signalled <;>
      simp_all [WaitPhase.afterSignal]
  constructor
  · rcases hp with hp | hp | hp <;> simp [hp, WaitPhase.recorded]
  · rcases hp with hp | hp | hp <;> simp [hp, WaitPhase.unaware]
  · rcases hp with hp | hp | hp <;> simp [hp, WaitPhase.before]
  · rcases hp with hp | hp | hp <;> simp [hp, WaitPhase.between]
  · intro b hb
    obtain ⟨hsig, rfl⟩ := hafter b hb
    exact hs hsig
  · exact hr

lemma Inv.signalled_of (h : w.Inv) {timedOut signalled : Bool}
    (hp : w.phase = .woken timedOut signalled ∨ w.phase = .locked timedOut signalled ∨
      w.phase = .forgotten timedOut signalled) (hs : signalled = true) :
    timedOut = false ∧ isSignalPending w.task = true := by
  subst hs
  refine h.signalled timedOut ?_
  rcases hp with hp | hp | hp <;> rw [hp] <;> rfl

lemma Inv.proceed (h : w.Inv) : w.proceed.Inv := by
  unfold SyncWorld.proceed
  cases hp : w.phase with
  | outside => exact h
  | entered cond =>
    simp only
    split_ifs with hs
    · exact h.ret fun _ => rfl
    · rw [Bool.not_eq_true] at hs
      have hh := h.holds (by rw [hp]; rfl)
      exact ⟨by simp [WaitPhase.recorded], by simp [hs], fun _ => hh, fun _ _ => hs,
        by simp [WaitPhase.afterSignal], h.returned⟩
  | checked cond =>
    have ha := h.awaited (by rw [hp]; rfl)
    have hh := h.holds (by rw [hp]; rfl)
    have hb := h.between (by rw [hp]; rfl)
    exact ⟨by simp [WaitPhase.recorded], fun _ => ha, fun _ => hh, fun _ => hb,
      by simp [WaitPhase.afterSignal], h.returned⟩
  | published cond =>
    have ha := h.awaited (by rw [hp]; rfl)
    have hc := h.recorded cond (by rw [hp]; rfl)
    exact ⟨by simpa [WaitPhase.recorded] using hc, fun _ => ha, by simp [WaitPhase.before],
      by simp [WaitPhase.between], by simp [WaitPhase.afterSignal], h.returned⟩
  | sleeping cond => exact h
  | woken timedOut signalled =>
    exact Inv.of_awake (Or.inr (Or.inl rfl)) (h.signalled_of (Or.inl hp)) h.returned
  | locked timedOut signalled =>
    exact Inv.of_awake (Or.inr (Or.inr rfl)) (h.signalled_of (Or.inr (Or.inl hp))) h.returned
  | forgotten timedOut signalled =>
    have hs := h.signalled_of (Or.inr (Or.inr hp))
    simp only
    split_ifs with ht hpend
    · exact h.ret fun hsig => absurd ht (by simp [(hs hsig).1])
    · exact h.ret fun _ => rfl
    · exact h.ret fun hsig => absurd (hs hsig).2 hpend

lemma Inv.mark (h : w.Inv) (hh : w.holds = false) (sig : ℕ) : (w.mark sig).Inv := by
  refine ⟨h.recorded, ?_, h.holds, ?_, ?_, h.returned⟩
  · intro hu hp
    simp only [SyncWorld.mark]
    rcases wakes_of_isSignalPending hp with hold | hnew
    · have hm := h.awaited hu hold
      split_ifs
      · exact Nat.succ_pos _
      · exact hm
    · rw [if_pos hnew]
      exact Nat.succ_pos _
  · intro hb ho
    -- the task would hold the signal lock here
    have hbefore : w.phase.before = true := by
      simp only [SyncWorld.mark] at hb
      cases hp : w.phase <;> simp_all [WaitPhase.between, WaitPhase.before]
    rw [h.holds hbefore ho] at hh
    cases hh
  · intro b hb
    obtain ⟨hf, hp⟩ := h.signalled b hb
    exact ⟨hf, isSignalPending_deliver hp sig⟩

lemma Inv.broadcast (h : w.Inv) {cond : ℕ} {signalled : Bool}
    (hs : signalled = true → isSignalPending w.task = true) :
    (w.broadcast cond signalled).Inv := by
  unfold SyncWorld.broadcast
  split_ifs
  · exact Inv.of_awake (Or.inl rfl) (fun hsig => ⟨rfl, hs hsig⟩) h.returned
  · exact h

lemma Inv.notifyWaiting (h : w.Inv) (hok : w.phase.between = true → w.ownLock = false →
    isSignalPending w.task = true → w.marked ≠ 1) : w.notifyWaiting.Inv := by
  -- unless the task sleeps, the sender wakes nobody, and another one is left that will
  have hrest : (∀ cond, w.phase = .sleeping cond → w.waitingCond ≠ some cond) →
      ({ w with marked := w.marked - 1 } : SyncWorld).Inv := by
    intro hno
    refine ⟨h.recorded, ?_, h.holds, h.between, h.signalled, h.returned⟩
    intro hu hp
    have hm := h.awaited hu hp
    have hb : w.phase.between = true := by
      cases hph : w.phase with
      | sleeping cond => exact absurd (h.recorded cond (by rw [hph]; rfl)) (hno cond hph)
      | _ => simp_all [WaitPhase.unaware, WaitPhase.between]
    have ho : w.ownLock = false := by
      by_contra ho
      have hno := h.between hb (Bool.not_eq_false _ ▸ ho)
      rw [hp] at hno
      cases hno
    have hne := hok hb ho hp
    change 0 < w.marked - 1
    omega
  unfold SyncWorld.notifyWaiting
  split
  case h_1 cond hc =>
    unfold SyncWorld.broadcast
    split_ifs with hsl
    · exact Inv.of_awake (Or.inl rfl) (fun hsig => ⟨rfl, hsig⟩) h.returned
    · refine hrest fun cond' hs' hw => hsl ?_
      rw [hc] at hw
      rw [hs', Option.some.inj hw]
  case h_2 hc => exact hrest (by simp [hc])

/-- The step lemma. -/
theorem Inv.step {h : SignalHost} {act : SyncAct} (hi : w.Inv) (hact : w.Admits act) :
    (w.step h act).Inv := by
  cases act with
  | other a =>
    simp only [SyncWorld.step]
    split_ifs with hp
    · exact Inv.of_outside hp hi.returned
    · exact hi
  | acquire =>
    simp only [SyncWorld.step]
    split_ifs with hp
    · exact Inv.of_outside hp hi.returned
    · exact hi
  | release =>
    simp only [SyncWorld.step]
    split_ifs with hp
    · exact Inv.of_outside hp hi.returned
    · exact hi
  | waitFor cond ownLock timed =>
    simp only [SyncWorld.step]
    split_ifs with hp
    · exact ⟨by simp [WaitPhase.recorded], by simp [WaitPhase.unaware],
        fun _ ho => hp.2.symm.trans ho, by simp [WaitPhase.between],
        by simp [WaitPhase.afterSignal], hi.returned⟩
    · exact hi
  | proceed => exact hi.proceed
  | deliver sig =>
    simp only [SyncWorld.step]
    split_ifs with hh
    · exact hi
    · exact hi.mark (Bool.not_eq_true _ ▸ hh) sig
  | send sig =>
    simp only [SyncWorld.step]
    split_ifs with hh
    · exact hi
    · exact hi.mark (Bool.not_eq_true _ ▸ fun hw => hh (Or.inl hw)) sig
  | notifyWaiting =>
    simp only [SyncWorld.step]
    split_ifs
    · exact hi
    · exact hi.notifyWaiting hact
  | notify cond => exact hi.broadcast (by simp)
  | timeOut =>
    simp only [SyncWorld.step]
    split
    · split_ifs
      · exact Inv.of_awake (Or.inl rfl) (by simp) hi.returned
      · exact hi
    · exact hi

/-- No task sleeps through a signal: the sender that is going to wake it finds the condition it
sleeps on. A wait that the sender of an unblocked signal ends returns `_EINTR`. -/
theorem signal_not_lost {h : SignalHost} {task : SignalTask} {acts : List SyncAct}
    (hacts : RunAll (step h) Admits { task := task } acts)
    (hw : w = run (step h) { task := task } acts) :
    ¬ w.Stranded ∧ (∀ cond, w.phase = .sleeping cond → w.waitingCond = some cond) ∧
      ∀ r ∈ w.returned, r.signalled = true → r.ret = .eintr := by
  have hi : w.Inv := by
    rw [hw]
    refine run_invariant (P := Inv) ?_ hacts (Inv.of_outside rfl (by simp))
    intro w act hact hi
    exact hi.step hact
  refine ⟨?_, fun cond hp => hi.recorded cond (by rw [hp]; rfl), hi.returned⟩
  rintro ⟨cond, hp, hpend, hm⟩
  have hpos := hi.awaited (by rw [hp]; rfl) hpend
  omega

def quietHost : SignalHost :=
  { frameSize := 4688, infoOffset := 0, ucOffset := 128, restorer := 0, writable := fun _ => true }

def signalledRun : List SyncAct :=
  [.waitFor 0 false false, .proceed, .proceed, .proceed, .deliver 10, .notifyWaiting, .proceed,
    .proceed, .proceed]

theorem signal_not_lost_asleep :
    (run (step quietHost) { task := {} } signalledRun).returned = [⟨.eintr, true⟩] ∧
      ¬ (run (step quietHost) { task := {} } signalledRun).Stranded := by
  have hrun : RunAll (step quietHost) Admits { task := {} } signalledRun := by
    simp only [signalledRun, RunAll, Admits, and_true]
    decide
  exact ⟨by decide, (signal_not_lost hrun rfl).1⟩

/-- A signal is sent after the task has looked for signals and before it records the
condition. -/
theorem signal_lost :
    (run (step quietHost) { task := {} } [.waitFor 0 false false, .proceed, .deliver 10,
      .notifyWaiting, .proceed, .proceed]).Stranded :=
  ⟨0, by decide⟩

end SyncWorld

end ShellBox
