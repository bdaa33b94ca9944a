import ShellBox.Util.Timespec

/-!
# Timers and their threads

A timer that is armed has a thread, which sleeps until the end of the timer and calls back. The
thread sleeps without the lock of the timer, and a signal tells it of changes: one that comes
before it sleeps has no effect.
-/

namespace ShellBox

/-- Where the thread of a timer is. It has the lock while it is `looping`, `due` or `fired`. A sleep
has the end for which its length was computed. -/
inductive TimerThread
  | starting
  | leaving (aim remaining : Timespec)
  | asleep (aim : Timespec) (wakeAt : ℤ)
  | awake
  | looping
  | due
  | fired
  deriving DecidableEq

/-- `struct timer`, with its thread while `thread_running`. -/
structure Timer where
  active : Bool
  endTime : Timespec
  interval : Timespec
  thread : Option TimerThread

namespace TimerThread

def locked : TimerThread → Bool
  | looping | due | fired => true
  | _ => false

def aim : TimerThread → Option Timespec
  | leaving aim _ | asleep aim _ => some aim
  | _ => none

def leavingFor : TimerThread → Option Timespec
  | leaving aim _ => some aim
  | _ => none

/-- `pthread_kill` with a signal whose handler does nothing. -/
def signal : TimerThread → TimerThread
  | asleep _ _ => awake
  | t => t

end TimerThread

namespace Timer

variable (t : Timer)

/-- `timer_new` does not write the times. -/
def new (endTime interval : Timespec) : Timer := ⟨false, endTime, interval, none⟩

def locked : Bool := t.thread.elim false TimerThread.locked

/-- What `timer_set` stores as the old setting. -/
def oldSpec (now : Timespec) : Timespec × Timespec := (timespecSubtract t.endTime now, t.interval)

/-- `timer_set` -/
def set (now value interval : Timespec) : Timer where
  active := !timespecIsZero value
  endTime := timespecAdd now value
  interval := interval
  thread :=
    match t.thread with
    | some th => some th.signal
    | none => if timespecIsZero value then none else some .starting

/-- `timer_thread` has the lock and computes how long it has to sleep. -/
def check (now : Timespec) : Option Timer :=
  if t.thread = some .starting ∨ t.thread = some .awake ∨ t.thread = some .looping then
    if t.active ∧ timespecPositive (timespecSubtract t.endTime now) then
      some { t with thread := some (.leaving t.endTime (timespecSubtract t.endTime now)) }
    else if t.active then some { t with thread := some .due }
    else some { t with thread := none }
  else none

/-- `nanosleep` -/
def sleep (now : Timespec) : Option Timer :=
  match t.thread with
  | some (.leaving aim remaining) =>
    some { t with thread := some (.asleep aim (now.ns + remaining.ns)) }
  | _ => none

def wake (now : Timespec) (interrupted : Bool) : Option Timer :=
  match t.thread with
  | some (.asleep _ wakeAt) =>
    if interrupted ∨ wakeAt ≤ now.ns then some { t with thread := some .awake } else none
  | _ => none

def fire : Option Timer :=
  if t.thread = some .due then some { t with thread := some .fired } else none

def advance : Option Timer :=
  if t.thread = some .fired then
    if timespecPositive t.interval then
      some { t with endTime := timespecAdd t.endTime t.interval, thread := some .looping }
    else some { t with thread := none }
  else none

end Timer

end ShellBox
