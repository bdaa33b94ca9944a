import Mathlib.Algebra.Order.Group.Defs
import Mathlib.Tactic.Common

/-!
# Alarms

An alarm has a deadline when it is armed, and a period with which it is armed again when it expires.
It counts how often it has expired since it was set or its count was read.
-/

namespace ShellBox

variable {T : Type*} [AddCommGroup T] [LinearOrder T]

/-- The period of an alarm that has not been set is `none`. -/
structure Alarm (T : Type*) where
  deadline : Option T
  period : Option T
  expiries : ℕ

namespace Alarm

/-- An alarm that has not been set. -/
def new : Alarm T := ⟨none, none, 0⟩

/-- The time to the deadline of an armed alarm. -/
def remaining (a : Alarm T) (now : T) : T := a.deadline.elim 0 fun d => max 0 (d - now)

/-- The deadline that a value stands for. -/
def deadlineOf (now : T) (absolute : Bool) (value : T) : Option T :=
  if value = 0 then none else some (if absolute then value else now + value)

def set (now : T) (absolute : Bool) (value interval : T) : Alarm T where
  deadline := deadlineOf now absolute value
  period := some interval
  expiries := 0

/-- The deadline after one that has come. -/
def next (d interval : T) : Option T := if 0 < interval then some (d + interval) else none

def expire (a : Alarm T) : Alarm T where
  deadline := a.deadline.bind fun d => next d (a.period.getD 0)
  period := a.period
  expiries := a.expiries + 1

def read (a : Alarm T) : Alarm T := { a with expiries := 0 }

variable {a : Alarm T} {d now : T}

lemma remaining_none (h : a.deadline = none) : a.remaining now = 0 := by
  rw [remaining, h, Option.elim_none]

lemma remaining_some (h : a.deadline = some d) : a.remaining now = max 0 (d - now) := by
  rw [remaining, h, Option.elim_some]

end Alarm

end ShellBox
