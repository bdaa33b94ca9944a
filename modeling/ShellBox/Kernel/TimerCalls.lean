import ShellBox.Logic.Alarm
import ShellBox.Logic.Loop
import ShellBox.Util.Timer

/-!
# Setting and reading timers

Posix timers and timer descriptors are set and asked for with the same few steps, which are
interleaved with those of the thread of the timer. A posix timer is set and asked for under the lock
of the group, a timer descriptor under its own, after the clock has been read for an absolute time.
The thread calls back into a timer descriptor, which counts.

An alarm follows each setting, callback and read. The timer does what the alarm does as long as no
step meets one of the cases that the code does not handle.
-/

namespace ShellBox

open Function

/-- A `timer_settime` or `timerfd_settime` that has read the clock. -/
structure TimerCall where
  absolute : Bool
  value : Timespec
  interval : Timespec
  old : Bool
  now : Timespec

inductive TimerHolder
  | settime (task : ℕ)
  | gettime
  deriving DecidableEq

/-- A `timer_gettime` or `timerfd_gettime` under way, with the difference that it has tested. -/
structure TimerQuery where
  interval : Timespec
  active : Bool
  now : Timespec
  seen : Option Timespec

structure TimerSystem where
  timerfd : Bool
  clock : Timespec
  timer : Timer
  expirations : ℕ
  holder : Option TimerHolder
  calls : ℕ → Option TimerCall
  query : Option TimerQuery

inductive TimerStep
  | tick (now : Timespec)
  | settime (task : ℕ) (absolute : Bool) (value interval : Timespec) (old : Bool)
  | settimeLock (task : ℕ)
  | settimeSet (task : ℕ)
  | gettime
  | gettimeTest
  | gettimeDone
  | read
  | check
  | sleep
  | wake (interrupted : Bool)
  | fire
  | advance

/-- What is seen of a step. A `read` without expirations waits. -/
inductive TimerEvent
  | none
  | set (call : TimerCall) (old : Timespec × Timespec)
  | asked
  | answered (value interval : Timespec)
  | read (count : ℕ)
  | fired

namespace TimerSystem

variable (s : TimerSystem)

def tick (now : Timespec) : Option TimerSystem :=
  if now.Normal ∧ FitsTimespec now.ns ∧ s.clock.ns ≤ now.ns then some { s with clock := now }
  else none

/-- `sys_timer_settime` takes the lock before it reads the clock, `sys_timerfd_settime` after. -/
def settime (task : ℕ) (absolute : Bool) (value interval : Timespec) (old : Bool) :
    Option TimerSystem :=
  if s.timerfd then
    some { s with calls := update s.calls task (some ⟨absolute, value, interval, old, s.clock⟩) }
  else if s.holder = none then
    some { s with
      holder := some (.settime task)
      calls := update s.calls task (some ⟨absolute, value, interval, old, s.clock⟩) }
  else none

def settimeLock (task : ℕ) : Option TimerSystem :=
  if s.timerfd ∧ s.holder = none then some { s with holder := some (.settime task) } else none

/-- The time from now on that a call passes to `timer_set`. -/
def relative (call : TimerCall) : Timespec :=
  if call.absolute then timespecSubtract call.value call.now else call.value

/-- `timer_set` waits for the lock of the timer. -/
def settimeSet (task : ℕ) : Option (TimerSystem × TimerEvent) :=
  if s.holder = some (.settime task) ∧ ¬ s.timer.locked then
    (s.calls task).map fun call =>
      ({ s with
          timer := s.timer.set s.clock (relative call) call.interval
          holder := none
          calls := update s.calls task none },
        .set call (s.timer.oldSpec s.clock))
  else none

def gettime : Option TimerSystem :=
  if s.holder = none then
    some { s with
      holder := some .gettime
      query := some ⟨s.timer.interval, s.timer.active, s.clock, none⟩ }
  else none

def gettimeTest : Option TimerSystem :=
  s.query.map fun q => { s with
    query := some { q with seen := some (timespecSubtract s.timer.endTime q.now) } }

/-- `sys_timer_gettime` reads the end again for the answer. -/
def gettimeDone : Option (TimerSystem × TimerEvent) :=
  s.query.bind fun q => q.seen.map fun seen =>
    ({ s with holder := none, query := none },
      .answered
        (if q.active ∧ timespecPositive seen then
          if s.timerfd then seen else timespecSubtract s.timer.endTime q.now
        else ⟨0, 0⟩)
        q.interval)

/-- `timerfd_read` -/
def read : Option (TimerSystem × TimerEvent) :=
  if s.timerfd ∧ s.holder = none then some ({ s with expirations := 0 }, .read s.expirations)
  else none

def run (timer : Option Timer) : Option (TimerSystem × TimerEvent) :=
  timer.map fun timer => ({ s with timer }, .none)

/-- `posix_timer_callback`, or `timerfd_callback`, which takes the lock of the descriptor. -/
def fire : Option (TimerSystem × TimerEvent) :=
  if s.timerfd then
    if s.holder = none then
      s.timer.fire.map fun timer =>
        ({ s with timer, expirations := (s.expirations + 1) % 2 ^ 64 }, .fired)
    else none
  else s.timer.fire.map fun timer => ({ s with timer }, .fired)

def step : TimerStep → Option (TimerSystem × TimerEvent)
  | .tick now => (s.tick now).map (·, .none)
  | .settime task absolute value interval old =>
    (s.settime task absolute value interval old).map (·, .none)
  | .settimeLock task => (s.settimeLock task).map (·, .none)
  | .settimeSet task => s.settimeSet task
  | .gettime => s.gettime.map (·, .asked)
  | .gettimeTest => s.gettimeTest.map (·, .none)
  | .gettimeDone => s.gettimeDone
  | .read => s.read
  | .check => s.run (s.timer.check s.clock)
  | .sleep => s.run (s.timer.sleep s.clock)
  | .wake interrupted => s.run (s.timer.wake s.clock interrupted)
  | .fire => s.fire
  | .advance => s.run s.timer.advance

end TimerSystem

/-! ### The alarm -/

structure TimerRun where
  sys : TimerSystem
  alarm : Alarm ℤ
  answer : Option (ℤ × ℤ)

namespace TimerRun

variable (w : TimerRun)

def ask : ℤ × ℤ := (w.alarm.remaining w.sys.clock.ns, w.alarm.period.getD 0)

def follow : TimerEvent → Alarm ℤ × Option (ℤ × ℤ)
  | .set call _ =>
    (Alarm.set w.sys.clock.ns call.absolute call.value.ns call.interval.ns, w.answer)
  | .asked => (w.alarm, some w.ask)
  | .read _ => (w.alarm.read, w.answer)
  | .fired => (w.alarm.expire, w.answer)
  | .none | .answered _ _ => (w.alarm, w.answer)

def step (op : TimerStep) : Option (TimerRun × TimerEvent) :=
  (w.sys.step op).map fun r => (⟨r.1, (w.follow r.2).1, (w.follow r.2).2⟩, r.2)

/-- What is seen is what the alarm does: it has come to its deadline when it fires, and the old
value, an answer and a count are its own. -/
def Shows : TimerEvent → Prop
  | .set call old => call.old → (old.1.ns, old.2.ns) = w.ask
  | .answered value interval => w.answer = some (value.ns, interval.ns)
  | .read count => count = w.alarm.expiries
  | .fired => w.alarm.deadline ≠ none ∧ ∀ d ∈ w.alarm.deadline, d ≤ w.sys.clock.ns
  | .none | .asked => True

def Attended : Prop :=
  ∀ d ∈ w.alarm.deadline, w.sys.timer.thread ≠ none ∧
    ∀ th ∈ w.sys.timer.thread, ∀ aim ∈ th.aim, aim.ns ≤ d

def Right (op : TimerStep) : Prop := ∀ r ∈ w.step op, w.Shows r.2 ∧ r.1.Attended

/-- A setting that the code handles. An absolute time is neither the present nor zero, and the clock
has not moved since it was read; an old value is asked for before the deadline; a thread that is
about to sleep does not have to know; nothing has been counted. -/
structure SetFits (call : TimerCall) : Prop where
  value : call.value.Normal
  interval : call.interval.Normal
  relative : ¬ call.absolute → FitsTimespec (w.sys.clock.ns + call.value.ns)
  absolute : call.absolute → FitsTimespec (call.value.ns - call.now.ns) ∧
    FitsTimespec call.value.ns ∧ (call.value.ns = 0 ↔ call.value.ns = call.now.ns) ∧
    (call.value.ns ≠ 0 → call.now.ns = w.sys.clock.ns)
  old : call.old → w.alarm.period ≠ none ∧
    FitsTimespec (w.sys.timer.endTime.ns - w.sys.clock.ns) ∧
    (w.alarm.deadline = none → w.sys.timer.endTime.ns = w.sys.clock.ns) ∧
    ∀ d ∈ w.alarm.deadline, w.sys.clock.ns ≤ d
  leaving : ∀ th ∈ w.sys.timer.thread, ∀ aim ∈ th.leavingFor,
    ∀ d ∈ Alarm.deadlineOf w.sys.clock.ns call.absolute call.value.ns, aim.ns ≤ d
  count : w.sys.timerfd → w.sys.expirations = 0

/-- A step that the code handles: besides settings, the times and the count do not overflow, and a
query is about a timer that has been set, and does not overlap the step from a callback to the next
period. -/
def Fits : TimerStep → Prop
  | .settimeSet task => ∀ call ∈ w.sys.calls task, w.SetFits call
  | .gettime => w.alarm.period ≠ none ∧
    (w.sys.timer.thread = some .fired → w.sys.timer.interval.ns ≤ 0)
  | .gettimeTest | .gettimeDone =>
    ∀ q ∈ w.sys.query, q.active → FitsTimespec (w.sys.timer.endTime.ns - q.now.ns)
  | .check => w.sys.timer.active → FitsTimespec (w.sys.timer.endTime.ns - w.sys.clock.ns)
  | .fire => w.sys.timerfd → w.sys.expirations + 1 < 2 ^ 64
  | .advance => w.sys.timer.thread = some .fired → 0 < w.sys.timer.interval.ns →
    w.sys.query = none ∧ FitsTimespec (w.sys.timer.endTime.ns + w.sys.timer.interval.ns)
  | _ => True

instance decidableShows : ∀ e : TimerEvent, Decidable (w.Shows e)
  | .set call old => inferInstanceAs (Decidable (call.old → (old.1.ns, old.2.ns) = w.ask))
  | .answered value interval =>
    inferInstanceAs (Decidable (w.answer = some (value.ns, interval.ns)))
  | .read count => inferInstanceAs (Decidable (count = w.alarm.expiries))
  | .fired => inferInstanceAs (Decidable
    (w.alarm.deadline ≠ none ∧ ∀ d ∈ w.alarm.deadline, d ≤ w.sys.clock.ns))
  | .none | .asked => inferInstanceAs (Decidable True)

instance decidableAttended : Decidable w.Attended :=
  inferInstanceAs (Decidable (∀ d ∈ w.alarm.deadline, w.sys.timer.thread ≠ none ∧
    ∀ th ∈ w.sys.timer.thread, ∀ aim ∈ th.aim, aim.ns ≤ d))

instance decidableTimerRight (op : TimerStep) : Decidable (w.Right op) :=
  inferInstanceAs (Decidable (∀ r ∈ w.step op, w.Shows r.2 ∧ r.1.Attended))

instance decidableSetFits (call : TimerCall) : Decidable (w.SetFits call) :=
  decidable_of_iff
    (call.value.Normal ∧ call.interval.Normal ∧
      (¬ call.absolute → FitsTimespec (w.sys.clock.ns + call.value.ns)) ∧
      (call.absolute → FitsTimespec (call.value.ns - call.now.ns) ∧
        FitsTimespec call.value.ns ∧ (call.value.ns = 0 ↔ call.value.ns = call.now.ns) ∧
        (call.value.ns ≠ 0 → call.now.ns = w.sys.clock.ns)) ∧
      (call.old → w.alarm.period ≠ none ∧
        FitsTimespec (w.sys.timer.endTime.ns - w.sys.clock.ns) ∧
        (w.alarm.deadline = none → w.sys.timer.endTime.ns = w.sys.clock.ns) ∧
        ∀ d ∈ w.alarm.deadline, w.sys.clock.ns ≤ d) ∧
      (∀ th ∈ w.sys.timer.thread, ∀ aim ∈ th.leavingFor,
        ∀ d ∈ Alarm.deadlineOf w.sys.clock.ns call.absolute call.value.ns, aim.ns ≤ d) ∧
      (w.sys.timerfd → w.sys.expirations = 0))
    ⟨fun ⟨h₁, h₂, h₃, h₄, h₅, h₆, h₇⟩ => ⟨h₁, h₂, h₃, h₄, h₅, h₆, h₇⟩,
      fun ⟨h₁, h₂, h₃, h₄, h₅, h₆, h₇⟩ => ⟨h₁, h₂, h₃, h₄, h₅, h₆, h₇⟩⟩

instance decidableTimerStepFits : ∀ op : TimerStep, Decidable (w.Fits op)
  | .settimeSet task => inferInstanceAs (Decidable (∀ call ∈ w.sys.calls task, w.SetFits call))
  | .gettime => inferInstanceAs (Decidable (w.alarm.period ≠ none ∧
    (w.sys.timer.thread = some .fired → w.sys.timer.interval.ns ≤ 0)))
  | .gettimeTest | .gettimeDone => inferInstanceAs (Decidable (∀ q ∈ w.sys.query,
    q.active → FitsTimespec (w.sys.timer.endTime.ns - q.now.ns)))
  | .check => inferInstanceAs (Decidable
    (w.sys.timer.active → FitsTimespec (w.sys.timer.endTime.ns - w.sys.clock.ns)))
  | .fire => inferInstanceAs (Decidable (w.sys.timerfd → w.sys.expirations + 1 < 2 ^ 64))
  | .advance => inferInstanceAs (Decidable
    (w.sys.timer.thread = some .fired → 0 < w.sys.timer.interval.ns →
      w.sys.query = none ∧ FitsTimespec (w.sys.timer.endTime.ns + w.sys.timer.interval.ns)))
  | .tick _ | .settime .. | .settimeLock _ | .read | .sleep | .wake _ =>
    inferInstanceAs (Decidable True)

/-! ### One step -/

def Follows : Prop :=
  match w.sys.timer.thread with
  | none => w.alarm.deadline = none ∧
    (w.sys.timer.active → w.sys.timer.endTime.ns ≤ w.sys.clock.ns)
  | some .due => w.sys.timer.active ∧ w.sys.timer.endTime.ns ≤ w.sys.clock.ns ∧
    w.alarm.deadline = some w.sys.timer.endTime.ns
  | some .fired => w.sys.timer.active ∧ w.sys.timer.endTime.ns ≤ w.sys.clock.ns ∧
    w.alarm.deadline = Alarm.next w.sys.timer.endTime.ns w.sys.timer.interval.ns
  | some th => w.alarm.deadline =
      (if w.sys.timer.active then some w.sys.timer.endTime.ns else none) ∧
    (w.sys.timer.active → ∀ aim ∈ th.aim, aim.ns ≤ w.sys.timer.endTime.ns)

structure QueryAgrees (q : TimerQuery) : Prop where
  holder : w.sys.holder = some .gettime
  now : q.now.Normal
  period : w.alarm.period ≠ none
  answer : w.answer = some
    (if q.active then max 0 (w.sys.timer.endTime.ns - q.now.ns) else 0, q.interval.ns)
  seen : q.active → ∀ r ∈ q.seen, r.Normal ∧ r.ns = w.sys.timer.endTime.ns - q.now.ns

structure Agrees : Prop where
  clock : w.sys.clock.Normal
  clockFits : FitsTimespec w.sys.clock.ns
  calls : ∀ task, ∀ call ∈ w.sys.calls task, call.now.Normal
  period : ∀ p ∈ w.alarm.period, w.sys.timer.interval.ns = p ∧ w.sys.timer.interval.Normal ∧
    w.sys.timer.endTime.Normal
  unset : w.alarm.period = none → w.sys.timer.active = false ∧ w.sys.timer.thread = none
  thread : w.Follows
  count : w.sys.timerfd → w.sys.expirations = w.alarm.expiries
  query : ∀ q ∈ w.sys.query, w.QueryAgrees q

variable {w}

lemma Agrees.attended (h : w.Agrees) : w.Attended := by
  intro d hd
  have hthread := h.thread
  unfold Follows at hthread
  rw [Option.mem_def] at hd
  split at hthread
  next hnone =>
    rw [hthread.1] at hd
    cases hd
  next hdue => simp [hdue, TimerThread.aim]
  next hfired => simp [hfired, TimerThread.aim]
  next th _ _ hsome =>
    obtain ⟨hdeadline, haim⟩ := hthread
    rw [hdeadline] at hd
    split_ifs at hd with hactive
    cases hd
    refine ⟨by simp [hsome], ?_⟩
    rw [hsome]
    rintro _ ⟨⟩
    exact haim hactive

lemma kept_of_quiet {op : TimerStep} {sys : Option TimerSystem}
    (hstep : w.sys.step op = sys.map (·, .none))
    (hsys : ∀ s ∈ sys, Agrees ⟨s, w.alarm, w.answer⟩) :
    ∀ r ∈ w.step op, w.Shows r.2 ∧ r.1.Agrees := by
  intro r hr
  rw [step, hstep, Option.mem_def, Option.map_eq_some_iff] at hr
  obtain ⟨r', hr', rfl⟩ := hr
  obtain ⟨s, hs, rfl⟩ := Option.map_eq_some_iff.mp hr'
  exact ⟨trivial, hsys s hs⟩

lemma kept_of_run {op : TimerStep} {timer : Option Timer}
    (hstep : w.sys.step op = w.sys.run timer)
    (hsys : ∀ t ∈ timer, Agrees ⟨{ w.sys with timer := t }, w.alarm, w.answer⟩) :
    ∀ r ∈ w.step op, w.Shows r.2 ∧ r.1.Agrees := by
  intro r hr
  rw [step, hstep, Option.mem_def, Option.map_eq_some_iff] at hr
  obtain ⟨r', hr', rfl⟩ := hr
  obtain ⟨t, ht, rfl⟩ := Option.map_eq_some_iff.mp hr'
  exact ⟨trivial, hsys t ht⟩

/-! ### The clock and the calls -/

lemma kept_tick (h : w.Agrees) (now : Timespec) :
    ∀ r ∈ w.step (.tick now), w.Shows r.2 ∧ r.1.Agrees := by
  refine kept_of_quiet rfl fun s hs => ?_
  rw [TimerSystem.tick, Option.mem_def] at hs
  split_ifs at hs with hnow
  cases hs
  obtain ⟨hnormal, hfits, hle⟩ := hnow
  refine { h with
    clock := hnormal
    clockFits := hfits
    thread := ?_
    query := fun q hq => { h.query q hq with } }
  have hthread := h.thread
  unfold Follows at hthread ⊢
  dsimp only
  split at hthread
  · exact ⟨hthread.1, fun hactive => (hthread.2 hactive).trans hle⟩
  · exact ⟨hthread.1, hthread.2.1.trans hle, hthread.2.2⟩
  · exact ⟨hthread.1, hthread.2.1.trans hle, hthread.2.2⟩
  · exact hthread

lemma kept_settime (h : w.Agrees) (task : ℕ) (absolute : Bool) (value interval : Timespec)
    (old : Bool) :
    ∀ r ∈ w.step (.settime task absolute value interval old), w.Shows r.2 ∧ r.1.Agrees := by
  have hcalls : ∀ task', ∀ call ∈ update w.sys.calls task
      (some ⟨absolute, value, interval, old, w.sys.clock⟩) task', call.now.Normal := by
    intro task' call hcall
    by_cases htask : task' = task
    · rw [htask, update_self, Option.mem_some_iff] at hcall
      rw [← hcall]
      exact h.clock
    · rw [update_of_ne htask] at hcall
      exact h.calls task' call hcall
  refine kept_of_quiet rfl fun s hs => ?_
  rw [TimerSystem.settime, Option.mem_def] at hs
  split_ifs at hs with htimerfd hholder
  · cases hs
    exact { h with calls := hcalls, query := fun q hq => { h.query q hq with } }
  · cases hs
    refine { h with calls := hcalls, query := fun q hq => ?_ }
    have hq' := (h.query q hq).holder
    rw [hholder] at hq'
    cases hq'

lemma kept_settimeLock (h : w.Agrees) (task : ℕ) :
    ∀ r ∈ w.step (.settimeLock task), w.Shows r.2 ∧ r.1.Agrees := by
  refine kept_of_quiet rfl fun s hs => ?_
  rw [TimerSystem.settimeLock, Option.mem_def] at hs
  split_ifs at hs with hholder
  cases hs
  refine { h with query := fun q hq => ?_ }
  have hq' := (h.query q hq).holder
  rw [hholder.2] at hq'
  cases hq'

/-! ### The thread -/

lemma Agrees.moved (h : w.Agrees) (hthread : w.sys.timer.thread ≠ none)
    {thread : Option TimerThread}
    (hfollows : Follows
      ⟨{ w.sys with timer := { w.sys.timer with thread } }, w.alarm, w.answer⟩) :
    Agrees ⟨{ w.sys with timer := { w.sys.timer with thread } }, w.alarm, w.answer⟩ :=
  { h with
    unset := fun hperiod => absurd (h.unset hperiod).2 hthread
    thread := hfollows
    query := fun q hq => { h.query q hq with } }

lemma Agrees.normal (h : w.Agrees) (hperiod : w.alarm.period ≠ none) :
    w.sys.timer.interval.Normal ∧ w.sys.timer.endTime.Normal := by
  obtain ⟨p, hp⟩ := Option.ne_none_iff_exists'.mp hperiod
  exact (h.period p hp).2

lemma Agrees.isSet (h : w.Agrees) (hthread : w.sys.timer.thread ≠ none) :
    w.alarm.period ≠ none := fun hperiod => hthread (h.unset hperiod).2

lemma Agrees.ahead (h : w.Agrees) {th : TimerThread} (hth : w.sys.timer.thread = some th)
    (hdue : th ≠ .due) (hfired : th ≠ .fired) :
    w.alarm.deadline = (if w.sys.timer.active then some w.sys.timer.endTime.ns else none) ∧
      (w.sys.timer.active → ∀ aim ∈ th.aim, aim.ns ≤ w.sys.timer.endTime.ns) := by
  have hfollows := h.thread
  unfold Follows at hfollows
  rw [hth] at hfollows
  cases th with
  | due => exact absurd rfl hdue
  | fired => exact absurd rfl hfired
  | starting | leaving _ _ | asleep _ _ | awake | looping => exact hfollows

lemma kept_check (h : w.Agrees) (hfits : w.Fits .check) :
    ∀ r ∈ w.step .check, w.Shows r.2 ∧ r.1.Agrees := by
  refine kept_of_run rfl fun timer htimer => ?_
  rw [Timer.check, Option.mem_def] at htimer
  split_ifs at htimer with hwhere hsleep hactive
  all_goals
    obtain ⟨th, hth, hdue, hfired⟩ : ∃ th, w.sys.timer.thread = some th ∧ th ≠ .due ∧
        th ≠ .fired := by
      rcases hwhere with hwhere | hwhere | hwhere <;>
        exact ⟨_, hwhere, by decide, by decide⟩
    have hsome : w.sys.timer.thread ≠ none := by simp [hth]
    obtain ⟨hdeadline, -⟩ := h.ahead hth hdue hfired
    cases htimer
  · refine h.moved hsome ⟨hdeadline, fun _ aim haim => ?_⟩
    cases haim
    exact le_rfl
  · obtain ⟨hnormal, hns⟩ := timespecSubtract_spec (h.normal (h.isSet hsome)).2 h.clock
      (hfits hactive)
    have hle : w.sys.timer.endTime.ns ≤ w.sys.clock.ns := by
      by_contra hlt
      refine hsleep ⟨hactive, (timespecPositive_iff hnormal).mpr ?_⟩
      omega
    rw [if_pos hactive] at hdeadline
    exact h.moved hsome ⟨hactive, hle, hdeadline⟩
  · rw [if_neg hactive] at hdeadline
    exact h.moved hsome ⟨hdeadline, fun hyes => absurd hyes hactive⟩

lemma kept_sleep (h : w.Agrees) : ∀ r ∈ w.step .sleep, w.Shows r.2 ∧ r.1.Agrees := by
  refine kept_of_run rfl fun timer htimer => ?_
  rw [Timer.sleep, Option.mem_def] at htimer
  split at htimer
  next aim remaining hth =>
    cases htimer
    obtain ⟨hdeadline, haim⟩ := h.ahead hth (by simp) (by simp)
    exact h.moved (by simp [hth]) ⟨hdeadline, haim⟩
  next => cases htimer

lemma kept_wake (h : w.Agrees) (interrupted : Bool) :
    ∀ r ∈ w.step (.wake interrupted), w.Shows r.2 ∧ r.1.Agrees := by
  refine kept_of_run rfl fun timer htimer => ?_
  rw [Timer.wake, Option.mem_def] at htimer
  split at htimer
  next aim wakeAt hth =>
    split_ifs at htimer
    cases htimer
    obtain ⟨hdeadline, -⟩ := h.ahead hth (by simp) (by simp)
    refine h.moved (by simp [hth]) ⟨hdeadline, fun _ aim haim => ?_⟩
    cases haim
  next => cases htimer

lemma Agrees.due (h : w.Agrees) (hth : w.sys.timer.thread = some .due) :
    w.sys.timer.active ∧ w.sys.timer.endTime.ns ≤ w.sys.clock.ns ∧
      w.alarm.deadline = some w.sys.timer.endTime.ns := by
  have hfollows := h.thread
  unfold Follows at hfollows
  rwa [hth] at hfollows

lemma Agrees.fired (h : w.Agrees) (hth : w.sys.timer.thread = some .fired) :
    w.sys.timer.active ∧ w.sys.timer.endTime.ns ≤ w.sys.clock.ns ∧
      w.alarm.deadline = Alarm.next w.sys.timer.endTime.ns w.sys.timer.interval.ns := by
  have hfollows := h.thread
  unfold Follows at hfollows
  rwa [hth] at hfollows

lemma Agrees.expire (h : w.Agrees) (hth : w.sys.timer.thread = some .due) {count : ℕ}
    (hcount : w.sys.timerfd → count = w.alarm.expiries + 1) :
    w.Shows .fired ∧ Agrees ⟨{ w.sys with
      timer := { w.sys.timer with thread := some .fired }
      expirations := count }, w.alarm.expire, w.answer⟩ := by
  obtain ⟨hactive, hle, hdeadline⟩ := h.due hth
  have hset := h.isSet (by simp [hth])
  obtain ⟨p, hp⟩ := Option.ne_none_iff_exists'.mp hset
  have hnext : w.alarm.expire.deadline =
      Alarm.next w.sys.timer.endTime.ns w.sys.timer.interval.ns := by
    rw [Alarm.expire, hdeadline, hp, Option.bind_some, Option.getD_some, (h.period p hp).1]
  constructor
  · refine ⟨by simp [hdeadline], ?_⟩
    rw [hdeadline]
    rintro _ ⟨⟩
    exact hle
  · exact { h with
      unset := fun hperiod => absurd hperiod hset
      thread := ⟨hactive, hle, hnext⟩
      count := hcount
      query := fun q hq => { h.query q hq with } }

lemma kept_fire (h : w.Agrees) (hfits : w.Fits .fire) :
    ∀ r ∈ w.step .fire, w.Shows r.2 ∧ r.1.Agrees := by
  intro r hr
  rw [step, TimerSystem.step, TimerSystem.fire, Option.mem_def, Option.map_eq_some_iff] at hr
  obtain ⟨r', hr', rfl⟩ := hr
  unfold Timer.fire at hr'
  split_ifs at hr' with htimerfd hholder hth hth
  · cases hr'
    have hcount : (w.sys.expirations + 1) % 2 ^ 64 = w.alarm.expiries + 1 := by
      rw [Nat.mod_eq_of_lt (hfits htimerfd), h.count htimerfd]
    exact h.expire hth fun _ => hcount
  · cases hr'
  · cases hr'
    exact h.expire hth fun hyes => absurd hyes htimerfd
  · cases hr'

lemma kept_advance (h : w.Agrees) (hfits : w.Fits .advance) :
    ∀ r ∈ w.step .advance, w.Shows r.2 ∧ r.1.Agrees := by
  refine kept_of_run rfl fun timer htimer => ?_
  rw [Timer.advance, Option.mem_def] at htimer
  split_ifs at htimer with hth hpositive
  all_goals
    have hsome : w.sys.timer.thread ≠ none := by simp [hth]
    obtain ⟨hactive, hle, hdeadline⟩ := h.fired hth
    obtain ⟨hinterval, hend⟩ := h.normal (h.isSet hsome)
    rw [timespecPositive_iff hinterval] at hpositive
    cases htimer
  · obtain ⟨hquery, hsum⟩ := hfits hth hpositive
    obtain ⟨hnormal, hns⟩ := timespecAdd_spec hend hinterval hsum
    rw [Alarm.next, if_pos hpositive] at hdeadline
    refine { h with
      period := fun p hp => ⟨(h.period p hp).1, hinterval, hnormal⟩
      unset := fun hperiod => absurd (h.unset hperiod).2 hsome
      thread := ⟨?_, ?_⟩
      query := fun q hq => ?_ }
    · rw [hdeadline, if_pos hactive, hns]
    · rintro - aim ⟨⟩
    · rw [hquery] at hq
      cases hq
  · rw [Alarm.next, if_neg hpositive] at hdeadline
    exact h.moved hsome ⟨hdeadline, fun _ => hle⟩

/-! ### Queries and reads -/

lemma kept_gettime (h : w.Agrees) (hfits : w.Fits .gettime) :
    ∀ r ∈ w.step .gettime, w.Shows r.2 ∧ r.1.Agrees := by
  obtain ⟨hset, hfired⟩ := hfits
  obtain ⟨p, hp⟩ := Option.ne_none_iff_exists'.mp hset
  have hremaining : w.alarm.remaining w.sys.clock.ns = if w.sys.timer.active then
      max 0 (w.sys.timer.endTime.ns - w.sys.clock.ns) else 0 := by
    have hfollows := h.thread
    unfold Follows at hfollows
    split at hfollows
    next hnone =>
      rw [Alarm.remaining_none hfollows.1]
      split_ifs with hactive
      · have hle := hfollows.2 hactive
        omega
      · rfl
    next hdue => rw [Alarm.remaining_some hfollows.2.2, if_pos hfollows.1]
    next hth =>
      obtain ⟨hactive, hle, hdeadline⟩ := hfollows
      rw [Alarm.next, if_neg (hfired hth).not_gt] at hdeadline
      rw [Alarm.remaining_none hdeadline, if_pos hactive]
      omega
    next =>
      by_cases hactive : w.sys.timer.active
      · rw [if_pos hactive]
        rw [if_pos hactive] at hfollows
        exact Alarm.remaining_some hfollows.1
      · rw [if_neg hactive]
        rw [if_neg hactive] at hfollows
        exact Alarm.remaining_none hfollows.1
  intro r hr
  rw [step, TimerSystem.step, TimerSystem.gettime, Option.mem_def, Option.map_eq_some_iff] at hr
  obtain ⟨r', hr', rfl⟩ := hr
  split_ifs at hr' with hholder
  · cases hr'
    refine ⟨trivial, { h with query := ?_ }⟩
    rintro q ⟨⟩
    refine ⟨rfl, h.clock, hset, ?_, fun _ r hr => by cases hr⟩
    rw [follow, ask, hremaining, hp, Option.getD_some, (h.period p hp).1]
  · cases hr'

lemma kept_gettimeTest (h : w.Agrees) (hfits : w.Fits .gettimeTest) :
    ∀ r ∈ w.step .gettimeTest, w.Shows r.2 ∧ r.1.Agrees := by
  refine kept_of_quiet rfl fun s hs => ?_
  rw [TimerSystem.gettimeTest, Option.mem_def, Option.map_eq_some_iff] at hs
  obtain ⟨q, hq, rfl⟩ := hs
  have hagrees := h.query q hq
  refine { h with query := ?_ }
  rintro q' ⟨⟩
  refine { hagrees with seen := fun hactive r hr => ?_ }
  cases hr
  exact timespecSubtract_spec (h.normal hagrees.period).2 hagrees.now (hfits q hq hactive)

lemma kept_gettimeDone (h : w.Agrees) (hfits : w.Fits .gettimeDone) :
    ∀ r ∈ w.step .gettimeDone, w.Shows r.2 ∧ r.1.Agrees := by
  intro r hr
  rw [step, TimerSystem.step, TimerSystem.gettimeDone, Option.mem_def,
    Option.map_eq_some_iff] at hr
  obtain ⟨r', hr', rfl⟩ := hr
  obtain ⟨q, hq, hr'⟩ := Option.bind_eq_some_iff.mp hr'
  obtain ⟨seen, hseen, rfl⟩ := Option.map_eq_some_iff.mp hr'
  have hagrees := h.query q hq
  refine ⟨?_, { h with query := fun q' hq' => by cases hq' }⟩
  simp only [Shows, hagrees.answer]
  by_cases hactive : q.active
  · obtain ⟨hnormal, hns⟩ := hagrees.seen hactive seen hseen
    have hagain := (timespecSubtract_spec (h.normal hagrees.period).2 hagrees.now
      (hfits q hq hactive)).2
    have hpositive := timespecPositive_iff hnormal
    simp only [hactive, true_and, if_true]
    congr 2
    split_ifs with hyes htimerfd
    · rw [hpositive, hns] at hyes
      omega
    · rw [hpositive, hns] at hyes
      omega
    · rw [hpositive, hns] at hyes
      change max 0 _ = 0
      omega
  · simp [hactive, Timespec.ns]

lemma kept_read (h : w.Agrees) : ∀ r ∈ w.step .read, w.Shows r.2 ∧ r.1.Agrees := by
  intro r hr
  rw [step, TimerSystem.step, TimerSystem.read, Option.mem_def, Option.map_eq_some_iff] at hr
  obtain ⟨r', hr', rfl⟩ := hr
  split_ifs at hr' with hcan
  · cases hr'
    exact ⟨h.count hcan.1, { h with
      count := fun _ => rfl
      query := fun q hq => { h.query q hq with } }⟩

/-! ### Settings -/

lemma SetFits.deadline {call : TimerCall} (hfits : w.SetFits call) (hclock : w.sys.clock.Normal)
    (hclockFits : FitsTimespec w.sys.clock.ns) (hnow : call.now.Normal) :
    (timespecAdd w.sys.clock (TimerSystem.relative call)).Normal ∧
      Alarm.deadlineOf w.sys.clock.ns call.absolute call.value.ns =
        if timespecIsZero (TimerSystem.relative call) then none
        else some (timespecAdd w.sys.clock (TimerSystem.relative call)).ns := by
  by_cases habsolute : call.absolute
  · obtain ⟨hdiff, hvalueFits, hzero, hmoved⟩ := hfits.absolute habsolute
    obtain ⟨hnormal, hns⟩ := timespecSubtract_spec hfits.value hnow hdiff
    have hrelative : TimerSystem.relative call = timespecSubtract call.value call.now :=
      if_pos habsolute
    have hiszero := timespecIsZero_iff hnormal
    rw [← hrelative] at hnormal hns hiszero
    unfold Alarm.deadlineOf
    by_cases hvalue : call.value.ns = 0
    · have hrel : (TimerSystem.relative call).ns = 0 := by
        have hsame := hzero.mp hvalue
        omega
      have hsum := timespecAdd_spec hclock hnormal (by rwa [hrel, add_zero])
      exact ⟨hsum.1, by rw [if_pos hvalue, if_pos (hiszero.mpr hrel)]⟩
    · have hsame := hmoved hvalue
      have hrel : w.sys.clock.ns + (TimerSystem.relative call).ns = call.value.ns := by omega
      have hne : ¬ timespecIsZero (TimerSystem.relative call) := by
        rw [hiszero]
        intro hrel0
        exact hvalue (hzero.mpr (by omega))
      have hsum := timespecAdd_spec hclock hnormal (by rwa [hrel])
      rw [if_neg hvalue, if_neg hne, if_pos habsolute, hsum.2, hrel]
      exact ⟨hsum.1, rfl⟩
  · have hrelative : TimerSystem.relative call = call.value := if_neg habsolute
    obtain ⟨hnormal, hns⟩ := timespecAdd_spec hclock hfits.value (hfits.relative habsolute)
    have hiszero := timespecIsZero_iff hfits.value
    rw [hrelative]
    refine ⟨hnormal, ?_⟩
    unfold Alarm.deadlineOf
    by_cases hvalue : call.value.ns = 0
    · rw [if_pos hvalue, if_pos (hiszero.mpr hvalue)]
    · rw [if_neg hvalue, if_neg (mt hiszero.mp hvalue), if_neg habsolute, hns]

lemma Agrees.deadline_eq (h : w.Agrees) (hunlocked : ¬ w.sys.timer.locked) {d : ℤ}
    (hd : w.alarm.deadline = some d) : d = w.sys.timer.endTime.ns := by
  cases hth : w.sys.timer.thread with
  | none =>
    have hfollows := h.thread
    unfold Follows at hfollows
    rw [hth] at hfollows
    rw [hfollows.1] at hd
    cases hd
  | some th =>
    rw [Timer.locked, hth, Option.elim_some] at hunlocked
    obtain ⟨hdeadline, -⟩ := h.ahead hth
      (by rintro rfl; exact hunlocked rfl) (by rintro rfl; exact hunlocked rfl)
    rw [hdeadline] at hd
    split_ifs at hd
    exact (Option.some_inj.mp hd).symm

lemma SetFits.shows {call : TimerCall} (hfits : w.SetFits call) (h : w.Agrees)
    (hunlocked : ¬ w.sys.timer.locked) :
    w.Shows (.set call (w.sys.timer.oldSpec w.sys.clock)) := by
  intro hold
  obtain ⟨hset, hdiff, hnone, hsome⟩ := hfits.old hold
  obtain ⟨p, hp⟩ := Option.ne_none_iff_exists'.mp hset
  have hns := (timespecSubtract_spec (h.normal hset).2 h.clock hdiff).2
  rw [ask, hp, Option.getD_some, ← (h.period p hp).1]
  refine Prod.ext ?_ rfl
  change (timespecSubtract w.sys.timer.endTime w.sys.clock).ns = _
  rw [hns]
  cases hd : w.alarm.deadline with
  | none =>
    rw [Alarm.remaining_none hd, hnone hd, sub_self]
  | some d =>
    rw [Alarm.remaining_some hd, ← h.deadline_eq hunlocked hd]
    have hle := hsome d hd
    omega

lemma SetFits.follows {call : TimerCall} (hfits : w.SetFits call)
    (hunlocked : ¬ w.sys.timer.locked) {holder : Option TimerHolder}
    {calls : ℕ → Option TimerCall} {answer : Option (ℤ × ℤ)}
    (hdeadline : Alarm.deadlineOf w.sys.clock.ns call.absolute call.value.ns =
      if timespecIsZero (TimerSystem.relative call) then none
      else some (timespecAdd w.sys.clock (TimerSystem.relative call)).ns) :
    Follows ⟨{ w.sys with
      timer := w.sys.timer.set w.sys.clock (TimerSystem.relative call) call.interval
      holder, calls },
      Alarm.set w.sys.clock.ns call.absolute call.value.ns call.interval.ns, answer⟩ := by
  have hleaving := hfits.leaving
  rw [hdeadline] at hleaving
  by_cases hzero : timespecIsZero (TimerSystem.relative call)
  · rw [if_pos hzero] at hdeadline
    cases hth : w.sys.timer.thread with
    | none => simp [Follows, Timer.set, hth, hzero, Alarm.set, hdeadline]
    | some th =>
      rw [Timer.locked, hth, Option.elim_some] at hunlocked
      cases th with
      | looping | due | fired => exact absurd rfl hunlocked
      | starting | leaving _ _ | asleep _ _ | awake =>
        simp [Follows, Timer.set, hth, hzero, Alarm.set, hdeadline, TimerThread.signal]
  · rw [if_neg hzero] at hdeadline hleaving
    cases hth : w.sys.timer.thread with
    | none => simp [Follows, Timer.set, hth, hzero, Alarm.set, hdeadline, TimerThread.aim]
    | some th =>
      rw [Timer.locked, hth, Option.elim_some] at hunlocked
      cases th with
      | looping | due | fired => exact absurd rfl hunlocked
      | leaving aim remaining =>
        have haim := hleaving _ hth aim rfl _ rfl
        simpa [Follows, Timer.set, hth, hzero, Alarm.set, hdeadline, TimerThread.signal,
          TimerThread.aim] using haim
      | starting | asleep _ _ | awake =>
        simp [Follows, Timer.set, hth, hzero, Alarm.set, hdeadline, TimerThread.signal,
          TimerThread.aim]

lemma kept_settimeSet (h : w.Agrees) (task : ℕ) (hfits : w.Fits (.settimeSet task)) :
    ∀ r ∈ w.step (.settimeSet task), w.Shows r.2 ∧ r.1.Agrees := by
  intro r hr
  rw [step, TimerSystem.step, TimerSystem.settimeSet, Option.mem_def,
    Option.map_eq_some_iff] at hr
  obtain ⟨r', hr', rfl⟩ := hr
  split_ifs at hr' with hcan
  obtain ⟨hholder, hunlocked⟩ := hcan
  obtain ⟨call, hcall, rfl⟩ := Option.map_eq_some_iff.mp hr'
  have hset := hfits call hcall
  obtain ⟨hnormal, hdeadline⟩ := hset.deadline h.clock h.clockFits (h.calls task call hcall)
  refine ⟨hset.shows h hunlocked, { h with
    calls := fun task' call' hcall' => ?_
    period := fun p hp => ?_
    unset := fun hperiod => by cases hperiod
    thread := hset.follows hunlocked hdeadline
    count := hset.count
    query := fun q hq => ?_ }⟩
  · by_cases htask : task' = task
    · rw [htask, Option.mem_def] at hcall'
      simp at hcall'
    · rw [Option.mem_def] at hcall'
      simp only [update_of_ne htask] at hcall'
      exact h.calls task' call' hcall'
  · cases hp
    exact ⟨rfl, hset.interval, hnormal⟩
  · have hq' := (h.query q hq).holder
    rw [hholder] at hq'
    cases hq'

lemma kept (h : w.Agrees) {op : TimerStep} (hfits : w.Fits op) :
    ∀ r ∈ w.step op, w.Shows r.2 ∧ r.1.Agrees := by
  cases op with
  | tick now => exact kept_tick h now
  | settime task absolute value interval old =>
    exact kept_settime h task absolute value interval old
  | settimeLock task => exact kept_settimeLock h task
  | settimeSet task => exact kept_settimeSet h task hfits
  | gettime => exact kept_gettime h hfits
  | gettimeTest => exact kept_gettimeTest h hfits
  | gettimeDone => exact kept_gettimeDone h hfits
  | read => exact kept_read h
  | check => exact kept_check h hfits
  | sleep => exact kept_sleep h
  | wake interrupted => exact kept_wake h interrupted
  | fire => exact kept_fire h hfits
  | advance => exact kept_advance h hfits

/-! ### Runs -/

def new (timerfd : Bool) (clock endTime interval : Timespec) : TimerRun where
  sys := ⟨timerfd, clock, .new endTime interval, 0, none, fun _ => none, none⟩
  alarm := .new
  answer := none

lemma agrees_new (timerfd : Bool) {clock : Timespec} (hnormal : clock.Normal)
    (hfits : FitsTimespec clock.ns) (endTime interval : Timespec) :
    (new timerfd clock endTime interval).Agrees where
  clock := hnormal
  clockFits := hfits
  calls _ call hcall := by cases hcall
  period p hp := by cases hp
  unset _ := ⟨rfl, rfl⟩
  thread := ⟨rfl, fun hactive => by cases hactive⟩
  count _ := rfl
  query q hq := by cases hq

end TimerRun

/-- In a run of steps that fit, the timer shows what the alarm does, and its deadline is
attended. -/
theorem timers_fire_as_set (timerfd : Bool) {clock : Timespec} (hnormal : clock.Normal)
    (hclock : FitsTimespec clock.ns) (endTime interval : Timespec) {ops : List TimerStep}
    (hfits : AllSteps TimerRun.step TimerRun.Fits (.new timerfd clock endTime interval) ops) :
    AllSteps TimerRun.step TimerRun.Right (.new timerfd clock endTime interval) ops := by
  refine allSteps_of_invariant (P := TimerRun.Agrees) (fun w op h hop => ?_)
    (TimerRun.agrees_new timerfd hnormal hclock endTime interval) hfits
  have hkept := TimerRun.kept h hop
  exact ⟨fun r hr => ⟨(hkept r hr).1, (hkept r hr).2.attended⟩, fun r hr => (hkept r hr).2⟩

/-- A descriptor that is set, asked for, read and disarmed. -/
theorem timers_fire_as_set_periodic :
    AllSteps TimerRun.step TimerRun.Right (.new true ⟨100, 0⟩ ⟨7, 7⟩ ⟨7, 7⟩)
      [.settime 1 false ⟨2, 0⟩ ⟨1, 500000000⟩ false, .settimeLock 1, .settimeSet 1, .check, .sleep,
        .tick ⟨101, 5⟩, .gettime, .gettimeTest, .gettimeDone, .tick ⟨102, 0⟩, .wake false, .check,
        .fire, .advance, .check, .read, .settime 1 false ⟨0, 0⟩ ⟨0, 0⟩ true, .settimeLock 1,
        .settimeSet 1, .sleep, .tick ⟨104, 0⟩, .wake false, .check] :=
  timers_fire_as_set true (by decide) (by decide) _ _ (by decide +kernel)

/-- An absolute time that is the present disarms, and zero arms; the old value of a timer that is
not armed is negative; a thread that is about to sleep misses an earlier deadline; a count outlives
a setting; and the clock moves while an absolute time is set. -/
theorem timers_not_fire_as_set :
    (¬ AllSteps TimerRun.step TimerRun.Right (.new false ⟨100, 0⟩ ⟨0, 0⟩ ⟨0, 0⟩)
      [.settime 1 true ⟨100, 0⟩ ⟨0, 0⟩ false, .settimeSet 1]) ∧
    (¬ AllSteps TimerRun.step TimerRun.Right (.new false ⟨100, 0⟩ ⟨0, 0⟩ ⟨0, 0⟩)
      [.settime 1 true ⟨0, 0⟩ ⟨0, 0⟩ false, .settimeSet 1, .check, .fire]) ∧
    (¬ AllSteps TimerRun.step TimerRun.Right (.new false ⟨100, 0⟩ ⟨0, 0⟩ ⟨0, 0⟩)
      [.settime 1 false ⟨0, 0⟩ ⟨0, 0⟩ false, .settimeSet 1, .tick ⟨101, 0⟩,
        .settime 1 false ⟨5, 0⟩ ⟨0, 0⟩ true, .settimeSet 1]) ∧
    (¬ AllSteps TimerRun.step TimerRun.Right (.new false ⟨100, 0⟩ ⟨0, 0⟩ ⟨0, 0⟩)
      [.settime 1 false ⟨10, 0⟩ ⟨0, 0⟩ false, .settimeSet 1, .check,
        .settime 1 false ⟨1, 0⟩ ⟨0, 0⟩ false, .settimeSet 1]) ∧
    (¬ AllSteps TimerRun.step TimerRun.Right (.new true ⟨100, 0⟩ ⟨0, 0⟩ ⟨0, 0⟩)
      [.settime 1 false ⟨1, 0⟩ ⟨0, 0⟩ false, .settimeLock 1, .settimeSet 1, .tick ⟨101, 0⟩, .check,
        .fire, .advance, .settime 1 false ⟨1, 0⟩ ⟨0, 0⟩ false, .settimeLock 1, .settimeSet 1,
        .read]) ∧
    ¬ AllSteps TimerRun.step TimerRun.Right (.new true ⟨100, 0⟩ ⟨0, 0⟩ ⟨0, 0⟩)
      [.settime 1 true ⟨105, 0⟩ ⟨0, 0⟩ false, .tick ⟨101, 0⟩, .settimeLock 1, .settimeSet 1,
        .gettime, .gettimeTest, .gettimeDone] := by
  refine ⟨?_, ?_, ?_, ?_, ?_, ?_⟩ <;> decide +kernel

end ShellBox
