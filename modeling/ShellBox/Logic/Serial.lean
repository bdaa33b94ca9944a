import Mathlib

/-!
# Calls that take effect at one point

Several threads make calls on one object. Each call takes effect at one point, between its start
and its return; the calls in the order of these points, each made at once on the object, have the
same results. What a thread has been returned, with the result of the call that it is making, if
that has taken effect, is what the thread has in this order.
-/

namespace ShellBox

variable {T C R S : Type*}

/-- The calls, made one after the other, have these results and leave this object. -/
def Serial (atomic : C → S → R × S) : S → List (T × C × R) → S → Prop
  | s, [], s'               => s' = s
  | s, (_, c, r) :: rest, s' => (atomic c s).1 = r ∧ Serial atomic (atomic c s).2 rest s'

/-- What a thread has in an order. -/
def callsOf [DecidableEq T] (t : T) (order : List (T × C × R)) : List (C × R) :=
  (order.filter fun entry => entry.1 = t).map Prod.snd

section Serial

variable {atomic : C → S → R × S} {s s' : S} {order : List (T × C × R)} {t t' : T} {c : C}

/-- One more call takes effect. -/
lemma Serial.effect (h : Serial atomic s order s') (t : T) (c : C) :
    Serial atomic s (order ++ [(t, c, (atomic c s').1)]) (atomic c s').2 := by
  induction order generalizing s with
  | nil =>
    obtain rfl : s' = s := h
    exact ⟨rfl, rfl⟩
  | cons entry rest ih => exact ⟨h.1, ih h.2⟩

variable [DecidableEq T]

@[simp] lemma callsOf_effect (t : T) (entry : C × R) (order : List (T × C × R)) :
    callsOf t (order ++ [(t, entry)]) = callsOf t order ++ [entry] := by
  simp [callsOf]

lemma callsOf_effect_of_ne (h : t' ≠ t) (entry : C × R) (order : List (T × C × R)) :
    callsOf t' (order ++ [(t, entry)]) = callsOf t' order := by
  simp [callsOf, h.symm]

@[simp] lemma callsOf_cons (t : T) (entry : C × R) (order : List (T × C × R)) :
    callsOf t ((t, entry) :: order) = entry :: callsOf t order := by
  simp [callsOf]

lemma callsOf_cons_of_ne (h : t' ≠ t) (entry : C × R) (order : List (T × C × R)) :
    callsOf t' ((t, entry) :: order) = callsOf t' order := by
  simp [callsOf, h.symm]

end Serial

end ShellBox
