import Mathlib.Data.List.FinRange
import Mathlib.Data.Fintype.Prod
import Mathlib.Tactic.Common
import ShellBox.Logic.Loop

/-!
# The timers of a process

A thread group has a table of timers, and its threads name them by their place in it. The table is
part of the structure that `fork` copies and that is left behind when the last thread exits.

A timer has one owner if it is in one table, at one place. An access outside of the table, through
a null pointer or to a timer that has been freed has no result.
-/

namespace ShellBox

open Function

def timersMax : ℕ := 16

/-- What of `struct tgroup` concerns timers: how many threads there are, and the objects in
`posix_timers`. -/
structure TimerGroup where
  threads : ℕ
  table : Fin timersMax → Option ℕ

/-- The live thread groups, how often each timer object has been freed, and the next object. -/
structure TimerWorld where
  group : ℕ → Option TimerGroup
  freed : ℕ → ℕ
  next : ℕ

def timerEfault : ℤ := -14
def timerEinval : ℤ := -22
def timerEnomem : ℤ := -12

def sigevSignal : ℕ := 0
def sigevNone : ℕ := 1
def sigevThreadId : ℕ := 4

/-- An operation of a thread of the group `g`. `create` comes with whether the clock is known, the
event can be read, the thread of the event is found and the id can be written. -/
inductive TimerOp
  | create (g : ℕ) (clock sigevent : Bool) (method : ℕ) (found put : Bool)
  | settime (g id : ℕ) (get put : Bool)
  | gettime (g id : ℕ) (put : Bool)
  | delete (g id : ℕ)
  | fork (g child : ℕ) (fails : Bool)
  | thread (g : ℕ)
  | exit (g : ℕ)

namespace TimerWorld

variable (s : TimerWorld)

def timerAt (p : ℕ × Fin timersMax) : Option ℕ := (s.group p.1).bind fun r => r.table p.2

def setGroup (g : ℕ) (o : Option TimerGroup) : TimerWorld :=
  { s with group := update s.group g o }

def setTable (g : ℕ) (r : TimerGroup) (i : Fin timersMax) (o : Option ℕ) : TimerWorld :=
  s.setGroup g (some { r with table := update r.table i o })

/-- `sys_timer_create` -/
def create (g : ℕ) (clock sigevent : Bool) (method : ℕ) (found put : Bool) :
    Option (TimerWorld × ℤ) :=
  if ¬ clock then some (s, timerEinval)
  else if ¬ sigevent then some (s, timerEfault)
  else if method ≠ sigevSignal ∧ method ≠ sigevNone ∧ method ≠ sigevThreadId then
    some (s, timerEinval)
  else if method = sigevThreadId ∧ ¬ found then some (s, timerEinval)
  else
    match s.group g with
    | none => none
    | some r =>
      match (List.finRange timersMax).find? fun i => r.table i = none with
      | none => some (s, timerEnomem)
      | some i =>
        if put then some ({ s.setTable g r i (some s.next) with next := s.next + 1 }, 0)
        else some (s, timerEfault)

/-- `sys_timer_settime` looks whether the id is beyond the end, but not whether it is the end. -/
def settime (g id : ℕ) (get put : Bool) : Option (TimerWorld × ℤ) :=
  if ¬ get then some (s, timerEfault)
  else if timersMax < id then some (s, timerEinval)
  else if h : id < timersMax then
    match s.timerAt (g, ⟨id, h⟩) with
    | none => none
    | some o => if s.freed o = 0 then some (s, if put then 0 else timerEfault) else none
  else none

/-- `sys_timer_gettime` -/
def gettime (g id : ℕ) (put : Bool) : Option (TimerWorld × ℤ) :=
  if h : id < timersMax then
    match s.timerAt (g, ⟨id, h⟩) with
    | none => some (s, timerEinval)
    | some o => if s.freed o = 0 then some (s, if put then 0 else timerEfault) else none
  else some (s, timerEinval)

/-- `sys_timer_delete` does not look at the id. -/
def delete (g id : ℕ) : Option (TimerWorld × ℤ) :=
  if h : id < timersMax then
    match s.group g with
    | none => none
    | some r =>
      match r.table ⟨id, h⟩ with
      | none => some (s, timerEinval)
      | some o =>
        some ({ s.setTable g r ⟨id, h⟩ none with freed := update s.freed o (s.freed o + 1) }, 0)
  else none

/-- `clone` without `CLONE_THREAD`. `tgroup_copy` copies the table, and a clone that fails after it
only frees the copy. -/
def fork (g child : ℕ) (fails : Bool) : Option (TimerWorld × ℤ) :=
  match s.group g with
  | none => none
  | some r =>
    if fails then some (s, timerEnomem)
    else some (s.setGroup child (some { r with threads := 1 }), (child : ℤ))

def thread (g : ℕ) : Option (TimerWorld × ℤ) :=
  match s.group g with
  | none => none
  | some r => some (s.setGroup g (some { r with threads := r.threads + 1 }), 0)

/-- `do_exit`, with `exit_tgroup`: a group without threads is dead. -/
def exit (g : ℕ) : Option (TimerWorld × ℤ) :=
  match s.group g with
  | none => none
  | some r =>
    if r.threads = 1 then some (s.setGroup g none, 0)
    else some (s.setGroup g (some { r with threads := r.threads - 1 }), 0)

end TimerWorld

def timerStep (s : TimerWorld) : TimerOp → Option (TimerWorld × ℤ)
  | .create g clock sigevent method found put => s.create g clock sigevent method found put
  | .settime g id get put => s.settime g id get put
  | .gettime g id put => s.gettime g id put
  | .delete g id => s.delete g id
  | .fork g child fails => s.fork g child fails
  | .thread g => s.thread g
  | .exit g => s.exit g

/-! ### Owners -/

/-- Each timer that has not been freed is at one place, none has been freed twice, and the tables
have no others. -/
structure TimerWorld.OneOwner (s : TimerWorld) : Prop where
  owner : ∀ o < s.next, s.freed o = 0 → ∃! p, s.timerAt p = some o
  once : ∀ o, s.freed o ≤ 1
  valid : ∀ p o, s.timerAt p = some o → o < s.next ∧ s.freed o = 0
  fresh : ∀ o, s.next ≤ o → s.freed o = 0

def TimerOp.Given (s : TimerWorld) : TimerOp → Prop
  | .create g _ _ _ _ _ | .settime g _ _ _ | .gettime g _ _ | .delete g _ | .thread g | .exit g =>
    s.group g ≠ none
  | .fork g child _ => s.group g ≠ none ∧ s.group child = none

def TimerOp.id : TimerOp → Option ℕ
  | .settime _ id _ _ | .gettime _ id _ | .delete _ id => some id
  | _ => none

def TimerOp.child : TimerOp → Option ℕ
  | .fork _ child fails => if fails then none else some child
  | _ => none

/-- An operation has a result, leaves every timer with one owner, refuses an id outside of the table
and gives a child no timers. -/
def TimerOp.Right (s : TimerWorld) (op : TimerOp) : Prop :=
  ∃ r, timerStep s op = some r ∧ r.1.OneOwner ∧
    (∀ id, op.id = some id → timersMax ≤ id → r.2 < 0 ∧ r.1 = s) ∧
    ∀ child, op.child = some child → ∀ i, r.1.timerAt (child, i) = none

/-- A value is set for a timer that is there, a deleted id is in the table, and neither a process
that forks nor one whose last thread exits has timers. -/
def TimerOp.Fits (s : TimerWorld) : TimerOp → Prop
  | .settime g id get _ =>
    get → id ≠ timersMax ∧ ∀ h : id < timersMax, s.timerAt (g, ⟨id, h⟩) ≠ none
  | .delete _ id => id < timersMax
  | .fork g _ fails => ¬ fails → ∀ i, s.timerAt (g, i) = none
  | .exit g => (s.group g).map TimerGroup.threads = some 1 → ∀ i, s.timerAt (g, i) = none
  | _ => True

instance decidableTimerGiven (s : TimerWorld) : ∀ op : TimerOp, Decidable (op.Given s)
  | .create .. | .settime .. | .gettime .. | .delete .. | .thread _ | .exit _ =>
    inferInstanceAs (Decidable (_ ≠ none))
  | .fork .. => inferInstanceAs (Decidable (_ ∧ _))

instance decidableTimerFits (s : TimerWorld) : ∀ op : TimerOp, Decidable (op.Fits s)
  | .settime g id get _ =>
    inferInstanceAs (Decidable (get →
      id ≠ timersMax ∧ ∀ h : id < timersMax, s.timerAt (g, ⟨id, h⟩) ≠ none))
  | .delete _ id => inferInstanceAs (Decidable (id < timersMax))
  | .fork g _ fails => inferInstanceAs (Decidable (¬ fails → ∀ i, s.timerAt (g, i) = none))
  | .exit g =>
    inferInstanceAs (Decidable ((s.group g).map TimerGroup.threads = some 1 →
      ∀ i, s.timerAt (g, i) = none))
  | .create .. | .gettime .. | .thread _ => inferInstanceAs (Decidable True)

/-! ### One operation -/

namespace TimerWorld

variable {s : TimerWorld} {g : ℕ} {r : TimerGroup}

lemma timerAt_of_group (hg : s.group g = some r) (i : Fin timersMax) :
    s.timerAt (g, i) = r.table i := by
  simp [timerAt, hg]

lemma timerAt_setGroup_self (o : Option TimerGroup) (i : Fin timersMax) :
    (s.setGroup g o).timerAt (g, i) = o.bind fun r => r.table i := by
  simp [timerAt, setGroup]

lemma timerAt_setGroup_of_ne {g' : ℕ} (hg : g' ≠ g) (o : Option TimerGroup) (i : Fin timersMax) :
    (s.setGroup g o).timerAt (g', i) = s.timerAt (g', i) := by
  simp [timerAt, setGroup, hg]

lemma timerAt_setGroup {o : Option TimerGroup}
    (ho : ∀ i, (o.bind fun r => r.table i) = s.timerAt (g, i)) :
    (s.setGroup g o).timerAt = s.timerAt := by
  funext ⟨g', i⟩
  by_cases hg : g' = g
  · rw [hg, timerAt_setGroup_self, ho]
  · exact timerAt_setGroup_of_ne hg o i

lemma timerAt_setTable (hg : s.group g = some r) (i : Fin timersMax) (o : Option ℕ) :
    (s.setTable g r i o).timerAt = update s.timerAt (g, i) o := by
  funext ⟨g', i'⟩
  by_cases hg' : g' = g
  · subst hg'
    rw [setTable, timerAt_setGroup_self, Option.bind_some]
    by_cases hi : i' = i
    · simp only [hi, update_self]
    · simp only [update_of_ne hi, update_of_ne (show (g', i') ≠ (g', i) by simpa using hi)]
      exact (timerAt_of_group hg i').symm
  · rw [setTable, timerAt_setGroup_of_ne hg', update_of_ne (by simp [hg'])]

lemma OneOwner.of_eq (h : s.OneOwner) {s' : TimerWorld} (hat : s'.timerAt = s.timerAt)
    (hfreed : s'.freed = s.freed) (hnext : s'.next = s.next) : s'.OneOwner := by
  obtain ⟨howner, honce, hvalid, hfresh⟩ := h
  refine ⟨?_, ?_, ?_, ?_⟩
  · rw [hat, hfreed, hnext]
    exact howner
  · rw [hfreed]
    exact honce
  · rw [hat, hfreed, hnext]
    exact hvalid
  · rw [hfreed, hnext]
    exact hfresh

lemma OneOwner.create (h : s.OneOwner) {s' : TimerWorld} {p : ℕ × Fin timersMax}
    (hp : s.timerAt p = none) (hat : s'.timerAt = update s.timerAt p (some s.next))
    (hfreed : s'.freed = s.freed) (hnext : s'.next = s.next + 1) : s'.OneOwner := by
  obtain ⟨howner, honce, hvalid, hfresh⟩ := h
  refine ⟨fun o ho hlive => ?_, fun o => hfreed ▸ honce o, fun q o hq => ?_, fun o ho => ?_⟩
  · rw [hfreed] at hlive
    rw [hat]
    by_cases hnew : o = s.next
    · refine ⟨p, by simp only [update_self, hnew], fun q hq => ?_⟩
      by_contra hne
      simp only [update_of_ne hne] at hq
      exact absurd (hvalid q o hq).1 (by omega)
    · obtain ⟨q, hq, huniq⟩ := howner o (by omega) hlive
      have hqp : q ≠ p := by
        rintro rfl
        rw [hp] at hq
        cases hq
      refine ⟨q, by simpa only [update_of_ne hqp] using hq, fun q' hq' => ?_⟩
      by_cases hq'p : q' = p
      · simp only [hq'p, update_self, Option.some_inj] at hq'
        exact absurd hq'.symm hnew
      · simp only [update_of_ne hq'p] at hq'
        exact huniq q' hq'
  · rw [hat] at hq
    rw [hfreed, hnext]
    by_cases hqp : q = p
    · rw [hqp, update_self, Option.some_inj] at hq
      rw [← hq]
      exact ⟨Nat.lt_succ_self _, hfresh _ le_rfl⟩
    · rw [update_of_ne hqp] at hq
      exact ⟨Nat.lt_succ_of_lt (hvalid q o hq).1, (hvalid q o hq).2⟩
  · rw [hfreed]
    exact hfresh o (by omega)

lemma OneOwner.delete (h : s.OneOwner) {s' : TimerWorld} {p : ℕ × Fin timersMax} {o : ℕ}
    (hp : s.timerAt p = some o) (hat : s'.timerAt = update s.timerAt p none)
    (hfreed : s'.freed = update s.freed o (s.freed o + 1)) (hnext : s'.next = s.next) :
    s'.OneOwner := by
  obtain ⟨howner, honce, hvalid, hfresh⟩ := h
  obtain ⟨holt, ho⟩ := hvalid p o hp
  refine ⟨fun o' ho' hlive => ?_, fun o' => ?_, fun q o' hq => ?_, fun o' ho' => ?_⟩
  · rw [hfreed] at hlive
    have hne : o' ≠ o := by
      rintro rfl
      rw [update_self] at hlive
      exact Nat.succ_ne_zero _ hlive
    rw [update_of_ne hne] at hlive
    obtain ⟨q, hq, huniq⟩ := howner o' (hnext ▸ ho') hlive
    have hqp : q ≠ p := by
      rintro rfl
      rw [hp, Option.some_inj] at hq
      exact hne hq.symm
    rw [hat]
    refine ⟨q, by simpa only [update_of_ne hqp] using hq, fun q' hq' => ?_⟩
    by_cases hq'p : q' = p
    · simp only [hq'p, update_self] at hq'
      cases hq'
    · simp only [update_of_ne hq'p] at hq'
      exact huniq q' hq'
  · rw [hfreed]
    by_cases hne : o' = o
    · rw [hne, update_self, ho]
    · rw [update_of_ne hne]
      exact honce o'
  · rw [hat] at hq
    by_cases hqp : q = p
    · rw [hqp, update_self] at hq
      cases hq
    · rw [update_of_ne hqp] at hq
      have hne : o' ≠ o := by
        rintro rfl
        obtain ⟨q₀, -, huniq⟩ := howner o' holt ho
        exact hqp ((huniq q hq).trans (huniq p hp).symm)
      rw [hfreed, hnext, update_of_ne hne]
      exact hvalid q o' hq
  · rw [hnext] at ho'
    rw [hfreed, update_of_ne (by omega)]
    exact hfresh o' ho'

lemma oneOwner_setGroup_none (h : s.OneOwner) :
    (s.setGroup g none).OneOwner ↔ ∀ i, s.timerAt (g, i) = none := by
  constructor
  · intro h' i
    by_contra hi
    obtain ⟨o, ho⟩ := Option.ne_none_iff_exists'.mp hi
    obtain ⟨holt, hlive⟩ := h.valid _ o ho
    obtain ⟨⟨g', i'⟩, hq, -⟩ := h'.owner o holt hlive
    have hne : g' ≠ g := by
      rintro rfl
      rw [timerAt_setGroup_self] at hq
      cases hq
    rw [timerAt_setGroup_of_ne hne] at hq
    obtain ⟨q, -, huniq⟩ := h.owner o holt hlive
    exact hne (congrArg Prod.fst ((huniq _ hq).trans (huniq _ ho).symm))
  · intro hnone
    exact h.of_eq (timerAt_setGroup fun i => (hnone i).symm) rfl rfl

/-! ### Operations -/

lemma create_cases (hg : s.group g ≠ none) (clock sigevent : Bool) (method : ℕ)
    (found put : Bool) :
    (∃ e, s.create g clock sigevent method found put = some (s, e)) ∨
      ∃ r i, s.group g = some r ∧ r.table i = none ∧
        s.create g clock sigevent method found put =
          some ({ s.setTable g r i (some s.next) with next := s.next + 1 }, 0) := by
  obtain ⟨r, hr⟩ := Option.ne_none_iff_exists'.mp hg
  unfold create
  simp only [hr]
  cases hi : (List.finRange timersMax).find? fun i => r.table i = none with
  | none =>
    left
    split_ifs <;> exact ⟨_, rfl⟩
  | some i =>
    have hfree : r.table i = none := by simpa using List.find?_some hi
    split_ifs with _ _ _ _ hput
    all_goals try exact Or.inl ⟨_, rfl⟩
    exact Or.inr ⟨r, i, rfl, hfree, rfl⟩

end TimerWorld

namespace TimerOp

variable {s : TimerWorld} {g : ℕ}

lemma right_iff {op : TimerOp} {r : TimerWorld × ℤ} (h : timerStep s op = some r) :
    op.Right s ↔ r.1.OneOwner ∧ (∀ id, op.id = some id → timersMax ≤ id → r.2 < 0 ∧ r.1 = s) ∧
      ∀ child, op.child = some child → ∀ i, r.1.timerAt (child, i) = none := by
  constructor
  · rintro ⟨r', hr', hright⟩
    rw [h, Option.some_inj] at hr'
    rwa [hr']
  · exact fun hright => ⟨r, h, hright⟩

lemma not_right {op : TimerOp} (h : timerStep s op = none) : ¬ op.Right s := by
  rintro ⟨r, hr, -⟩
  rw [h] at hr
  cases hr

lemma right_of_same (hs : s.OneOwner) {op : TimerOp} {e : ℤ} (h : timerStep s op = some (s, e))
    (hid : ∀ id, op.id = some id → timersMax ≤ id → e < 0) (hchild : op.child = none) :
    op.Right s := by
  refine (right_iff h).mpr ⟨hs, fun id hop hle => ⟨hid id hop hle, rfl⟩, fun child hop => ?_⟩
  rw [hchild] at hop
  cases hop

lemma right_create (hs : s.OneOwner) (hg : s.group g ≠ none) (clock sigevent : Bool) (method : ℕ)
    (found put : Bool) : (create g clock sigevent method found put).Right s := by
  rcases s.create_cases hg clock sigevent method found put with ⟨e, h⟩ | ⟨r, i, hr, hi, h⟩
  · exact right_of_same hs h (by simp [TimerOp.id]) rfl
  · have h : timerStep s (create g clock sigevent method found put) = _ := h
    refine (right_iff h).mpr ⟨?_, by simp [TimerOp.id], by simp [TimerOp.child]⟩
    have hfree : s.timerAt (g, i) = none := (TimerWorld.timerAt_of_group hr i).trans hi
    exact hs.create hfree (TimerWorld.timerAt_setTable hr i _) rfl rfl

lemma right_settime (hs : s.OneOwner) (id : ℕ) (get put : Bool) :
    (settime g id get put).Right s ↔ (settime g id get put).Fits s := by
  by_cases hget : get
  · rcases lt_trichotomy id timersMax with hid | hid | hid
    · cases hat : s.timerAt (g, ⟨id, hid⟩) with
      | none =>
        have h : timerStep s (settime g id get put) = none := by
          simp [timerStep, TimerWorld.settime, hget, hid, hid.le, hat]
        refine iff_of_false (not_right h) fun hfits => ?_
        exact (hfits hget).2 hid hat
      | some o =>
        have hlive := (hs.valid _ o hat).2
        have h : timerStep s (settime g id get put) =
            some (s, if put then 0 else timerEfault) := by
          simp [timerStep, TimerWorld.settime, hget, hid, hid.le, hat, hlive]
        refine iff_of_true (right_of_same hs h ?_ rfl) fun _ => ⟨hid.ne, fun _ => by simp [hat]⟩
        rintro _ ⟨⟩ hle
        exact absurd hid hle.not_gt
    · have h : timerStep s (settime g id get put) = none := by
        simp [timerStep, TimerWorld.settime, hget, hid]
      exact iff_of_false (not_right h) fun hfits => (hfits hget).1 hid
    · have h : timerStep s (settime g id get put) = some (s, timerEinval) := by
        simp [timerStep, TimerWorld.settime, hget, hid]
      exact iff_of_true (right_of_same hs h (fun _ _ _ => by decide) rfl)
        fun _ => ⟨hid.ne', fun hlt => absurd hlt hid.not_gt⟩
  · have h : timerStep s (settime g id get put) = some (s, timerEfault) := by
      simp [timerStep, TimerWorld.settime, hget]
    exact iff_of_true (right_of_same hs h (fun _ _ _ => by decide) rfl) fun hyes => absurd hyes hget

lemma right_gettime (hs : s.OneOwner) (id : ℕ) (put : Bool) : (gettime g id put).Right s := by
  by_cases hid : id < timersMax
  · cases hat : s.timerAt (g, ⟨id, hid⟩) with
    | none =>
      have h : timerStep s (gettime g id put) = some (s, timerEinval) := by
        simp [timerStep, TimerWorld.gettime, hid, hat]
      exact right_of_same hs h (fun _ _ _ => by decide) rfl
    | some o =>
      have hlive := (hs.valid _ o hat).2
      have h : timerStep s (gettime g id put) = some (s, if put then 0 else timerEfault) := by
        simp [timerStep, TimerWorld.gettime, hid, hat, hlive]
      refine right_of_same hs h ?_ rfl
      rintro _ ⟨⟩ hle
      exact absurd hid hle.not_gt
  · have h : timerStep s (gettime g id put) = some (s, timerEinval) := by
      simp [timerStep, TimerWorld.gettime, hid]
    exact right_of_same hs h (fun _ _ _ => by decide) rfl

lemma right_delete (hs : s.OneOwner) (hg : s.group g ≠ none) (id : ℕ) :
    (delete g id).Right s ↔ id < timersMax := by
  obtain ⟨r, hr⟩ := Option.ne_none_iff_exists'.mp hg
  by_cases hid : id < timersMax
  · refine iff_of_true ?_ hid
    have hat := TimerWorld.timerAt_of_group hr ⟨id, hid⟩
    cases hi : r.table ⟨id, hid⟩ with
    | none =>
      have h : timerStep s (delete g id) = some (s, timerEinval) := by
        simp [timerStep, TimerWorld.delete, hid, hr, hi]
      exact right_of_same hs h (fun _ _ _ => by decide) rfl
    | some o =>
      have h : timerStep s (delete g id) = some ({ s.setTable g r ⟨id, hid⟩ none with
          freed := update s.freed o (s.freed o + 1) }, 0) := by
        simp [timerStep, TimerWorld.delete, hid, hr, hi]
      refine (right_iff h).mpr ⟨?_, ?_, by simp [TimerOp.child]⟩
      · exact hs.delete (hat.trans hi) (TimerWorld.timerAt_setTable hr _ none) rfl rfl
      · rintro _ ⟨⟩ hle
        exact absurd hid hle.not_gt
  · have h : timerStep s (delete g id) = none := by
      simp [timerStep, TimerWorld.delete, hid]
    exact iff_of_false (not_right h) hid

lemma right_fork (hs : s.OneOwner) {child : ℕ} (hg : s.group g ≠ none)
    (hchild : s.group child = none) (fails : Bool) :
    (fork g child fails).Right s ↔ (fork g child fails).Fits s := by
  obtain ⟨r, hr⟩ := Option.ne_none_iff_exists'.mp hg
  by_cases hfails : fails
  · have h : timerStep s (fork g child fails) = some (s, timerEnomem) := by
      simp [timerStep, TimerWorld.fork, hr, hfails]
    exact iff_of_true (right_of_same hs h (by simp [TimerOp.id]) (by simp [TimerOp.child, hfails]))
      fun hno => absurd hfails hno
  · have h : timerStep s (fork g child fails) =
        some (s.setGroup child (some { r with threads := 1 }), (child : ℤ)) := by
      simp [timerStep, TimerWorld.fork, hr, hfails]
    have hcopy (i : Fin timersMax) :
        (s.setGroup child (some { r with threads := 1 })).timerAt (child, i) =
          s.timerAt (g, i) := by
      rw [TimerWorld.timerAt_setGroup_self, TimerWorld.timerAt_of_group hr]
      rfl
    rw [right_iff h]
    constructor
    · rintro ⟨-, -, hnone⟩ - i
      rw [← hcopy i]
      exact hnone child (by simp [TimerOp.child, hfails]) i
    · intro hfits
      have hempty := hfits hfails
      refine ⟨?_, by simp [TimerOp.id], ?_⟩
      · refine hs.of_eq (TimerWorld.timerAt_setGroup fun i => ?_) rfl rfl
        have hnone : s.timerAt (child, i) = none := by simp [TimerWorld.timerAt, hchild]
        rw [hnone]
        exact (TimerWorld.timerAt_of_group hr i).symm.trans (hempty i)
      · rintro child' hop i
        have heq : child = child' := by simpa [TimerOp.child, hfails] using hop
        rw [← heq, hcopy i, hempty i]

lemma right_of_threads (hs : s.OneOwner) {op : TimerOp} {r : TimerGroup} {threads : ℕ}
    (hr : s.group g = some r)
    (h : timerStep s op = some (s.setGroup g (some { r with threads }), 0)) (hid : op.id = none)
    (hchild : op.child = none) : op.Right s := by
  refine (right_iff h).mpr ⟨?_, by simp [hid], by simp [hchild]⟩
  refine hs.of_eq (TimerWorld.timerAt_setGroup fun i => ?_) rfl rfl
  exact (TimerWorld.timerAt_of_group hr i).symm

lemma right_thread (hs : s.OneOwner) (hg : s.group g ≠ none) : (thread g).Right s := by
  obtain ⟨r, hr⟩ := Option.ne_none_iff_exists'.mp hg
  have h : timerStep s (thread g) =
      some (s.setGroup g (some { r with threads := r.threads + 1 }), 0) := by
    simp [timerStep, TimerWorld.thread, hr]
  exact right_of_threads hs hr h rfl rfl

lemma right_exit (hs : s.OneOwner) (hg : s.group g ≠ none) :
    (exit g).Right s ↔ (exit g).Fits s := by
  obtain ⟨r, hr⟩ := Option.ne_none_iff_exists'.mp hg
  by_cases hone : r.threads = 1
  · have h : timerStep s (exit g) = some (s.setGroup g none, 0) := by
      simp [timerStep, TimerWorld.exit, hr, hone]
    rw [right_iff h]
    constructor
    · rintro ⟨hnext, -, -⟩ -
      exact (TimerWorld.oneOwner_setGroup_none hs).mp hnext
    · intro hfits
      have hempty := hfits (by simp [hr, hone])
      exact ⟨(TimerWorld.oneOwner_setGroup_none hs).mpr hempty, by simp [TimerOp.id],
        by simp [TimerOp.child]⟩
  · have h : timerStep s (exit g) =
        some (s.setGroup g (some { r with threads := r.threads - 1 }), 0) := by
      simp [timerStep, TimerWorld.exit, hr, hone]
    refine iff_of_true (right_of_threads hs hr h rfl rfl) fun hlast => ?_
    rw [hr, Option.map_some, Option.some_inj] at hlast
    exact absurd hlast hone

lemma right_iff_fits (hs : s.OneOwner) {op : TimerOp} (hgiven : op.Given s) :
    op.Right s ↔ op.Fits s := by
  cases op with
  | create g clock sigevent method found put =>
    exact iff_of_true (right_create hs hgiven clock sigevent method found put) trivial
  | settime g id get put => exact right_settime hs id get put
  | gettime g id put => exact iff_of_true (right_gettime hs id put) trivial
  | delete g id => exact right_delete hs hgiven id
  | fork g child fails => exact right_fork hs hgiven.1 hgiven.2 fails
  | thread g => exact iff_of_true (right_thread hs hgiven) trivial
  | exit g => exact right_exit hs hgiven

end TimerOp

/-! ### Runs -/

/-- In a run all operations are right if and only if all fit. -/
theorem posix_timers_one_owner {s : TimerWorld} (hs : s.OneOwner) {ops : List TimerOp}
    (hgiven : AllSteps timerStep (fun s op => op.Given s) s ops) :
    AllSteps timerStep (fun s op => op.Right s) s ops ↔
      AllSteps timerStep (fun s op => op.Fits s) s ops := by
  refine allSteps_iff (P := TimerWorld.OneOwner) (fun s op hs hgiven => ?_) ?_ hs hgiven
  · exact TimerOp.right_iff_fits hs hgiven
  · rintro s op - - ⟨r, hr, hnext, -⟩ r' hr'
    rw [Option.mem_def, hr, Option.some_inj] at hr'
    exact hr' ▸ hnext

def TimerWorld.boot : TimerWorld where
  group := update (fun _ => none) 1 (some ⟨1, fun _ => none⟩)
  freed _ := 0
  next := 0

lemma TimerWorld.oneOwner_boot : TimerWorld.boot.OneOwner where
  owner o ho := absurd ho (Nat.not_lt_zero o)
  once _ := Nat.zero_le 1
  valid p o hp := by
    by_cases hp1 : p.1 = 1 <;> simp [TimerWorld.timerAt, TimerWorld.boot, hp1] at hp
  fresh _ _ := rfl

/-- A timer that is made, set and deleted before the process forks and exits. -/
theorem posix_timers_one_owner_run :
    AllSteps timerStep (fun s op => op.Right s) TimerWorld.boot
      [.create 1 true true sigevSignal true true, .settime 1 0 true true, .settime 1 17 true true,
        .delete 1 0, .fork 1 2 false, .thread 2, .exit 1] :=
  (posix_timers_one_owner TimerWorld.oneOwner_boot (by decide)).mpr (by decide)

/-- A child has its parent's timer, the id 16 is used, an id is not looked at, and an exit leaves a
timer behind. -/
theorem posix_timers_not_one_owner :
    (¬ AllSteps timerStep (fun s op => op.Right s) TimerWorld.boot
      [.create 1 true true sigevSignal true true, .fork 1 2 false]) ∧
    (¬ AllSteps timerStep (fun s op => op.Right s) TimerWorld.boot [.settime 1 16 true true]) ∧
    (¬ AllSteps timerStep (fun s op => op.Right s) TimerWorld.boot [.delete 1 4294967295]) ∧
    ¬ AllSteps timerStep (fun s op => op.Right s) TimerWorld.boot
      [.create 1 true true sigevSignal true true, .exit 1] := by
  have hboot := TimerWorld.oneOwner_boot
  refine ⟨?_, ?_, ?_, ?_⟩
  · rintro ⟨⟨r, hr, hone, -⟩, hrest⟩
    have hfork := (hrest r hr).1
    cases hr
    have hempty := (TimerOp.right_fork hone (by decide) (by decide) false).mp hfork (by decide)
      ⟨0, by decide⟩
    revert hempty
    decide
  · rintro ⟨hset, -⟩
    exact ((TimerOp.right_settime hboot 16 true true).mp hset rfl).1 rfl
  · rintro ⟨hdelete, -⟩
    have hlt := (TimerOp.right_delete hboot (by decide) 4294967295).mp hdelete
    revert hlt
    decide
  · rintro ⟨⟨r, hr, hone, -⟩, hrest⟩
    have hexit := (hrest r hr).1
    cases hr
    have hempty := (TimerOp.right_exit hone (by decide)).mp hexit (by decide) ⟨0, by decide⟩
    revert hempty
    decide

end ShellBox
