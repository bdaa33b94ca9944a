import ShellBox.Logic.Loop

/-!
# The times of children

Each thread that exits adds its time to that of its thread group. When the last one has left, the
group is a zombie until it is waited for, or is released at once if the parent ignores its end;
whoever releases it adds its time to the times of the children of the parent.

What the groups hold is compared with a ledger of the times that the threads of each group have
used and of the children that have been released, each with the times of its own children.
-/

namespace ShellBox

open Function

/-! ### Times -/

/-- `struct timeval_`, of a time that is not negative. -/
structure Timeval where
  sec : ℕ
  usec : ℕ
  deriving DecidableEq

def timevalAdd (dst src : Timeval) : Timeval :=
  if 1000000 ≤ dst.usec + src.usec then ⟨dst.sec + src.sec + 1, dst.usec + src.usec - 1000000⟩
  else ⟨dst.sec + src.sec, dst.usec + src.usec⟩

def clockFromTimeval (t : Timeval) : ℕ := (t.sec * 100 + t.usec / 10000) % 2 ^ 32

/-- The times in a `struct rusage_`. -/
structure Rusage where
  utime : Timeval
  stime : Timeval
  deriving DecidableEq

def rusageAdd (dst src : Rusage) : Rusage :=
  ⟨timevalAdd dst.utime src.utime, timevalAdd dst.stime src.stime⟩

def Rusage.zero : Rusage := ⟨⟨0, 0⟩, ⟨0, 0⟩⟩

def Timeval.micros (t : Timeval) : ℕ := t.sec * 1000000 + t.usec

def Rusage.micros (r : Rusage) : ℕ × ℕ := (r.utime.micros, r.stime.micros)

structure Rusage.Is (r : Rusage) (times : ℕ × ℕ) : Prop where
  utime : r.utime.usec < 1000000
  stime : r.stime.usec < 1000000
  micros : r.micros = times

/-- What the host reports of the thread that asks, in `rusage_get_current`. -/
structure HostTimes extends Rusage where
  utime_lt : utime.usec < 1000000
  stime_lt : stime.usec < 1000000

/-! ### Tasks and thread groups -/

/-- A task. A thread in `do_exit` has what it read of its group in `saved`, until it leaves. -/
structure TimedTask where
  group : ℕ
  parent : Option ℕ
  exiting : Bool
  zombie : Bool
  saved : Option Rusage

structure TimedGroup where
  leader : ℕ
  threads : List ℕ
  rusage : Rusage
  childrenRusage : Rusage

/-- The tasks by pid and the groups. A group has a name of its own, also when the pid of its leader
is used again; `halted` is the end of init. -/
structure TimeTree where
  task : ℕ → Option TimedTask
  group : ℕ → Option TimedGroup
  nextTask : ℕ
  nextGroup : ℕ
  halted : Bool

/-- How a thread leaves: others stay, or init has ended, or the group is a zombie, or it is released
at once, and the parent is of a group. -/
inductive ExitKind
  | stays
  | halts
  | zombie
  | released (parent : ℕ)
  deriving DecidableEq

namespace TimeTree

variable (s : TimeTree)

def setTask (t : ℕ) (k : Option TimedTask) : TimeTree := { s with task := update s.task t k }

def setGroup (g : ℕ) (k : Option TimedGroup) : TimeTree := { s with group := update s.group g k }

def running (t : ℕ) : Option TimedTask :=
  (s.task t).filter fun k => !k.exiting && !k.zombie && k.saved.isNone

def groupOf (t : ℕ) : Option TimedGroup := (s.task t).bind fun k => s.group k.group

/-- `sys_clone` of a new process, with `tgroup_copy`: the times are those of the old group, and
there are none of children. -/
def fork (t : ℕ) : TimeTree :=
  match s.running t, s.groupOf t with
  | some _, some g =>
    { s with
      task := update s.task s.nextTask (some ⟨s.nextGroup, some t, false, false, none⟩)
      group := update s.group s.nextGroup (some { g with
        leader := s.nextTask, threads := [s.nextTask], childrenRusage := .zero })
      nextTask := s.nextTask + 1
      nextGroup := s.nextGroup + 1 }
  | _, _ => s

/-- `sys_clone` of a new thread. -/
def newThread (t : ℕ) : TimeTree :=
  match s.running t, s.groupOf t with
  | some k, some g =>
    { s with
      task := update s.task s.nextTask (some ⟨k.group, some t, false, false, none⟩)
      group := update s.group k.group (some { g with threads := s.nextTask :: g.threads })
      nextTask := s.nextTask + 1 }
  | _, _ => s

/-- `do_exit` up to where it takes `pids_lock`. -/
def account (t : ℕ) (rusage : Rusage) : TimeTree :=
  match s.running t, s.groupOf t with
  | some k, some g =>
    (s.setGroup k.group (some { g with rusage := rusageAdd g.rusage rusage })).setTask t
      (some { k with saved := some (rusageAdd g.rusage rusage) })
  | _, _ => s

def findNewParent (g : TimedGroup) : ℕ :=
  (g.threads.find? fun p => (s.task p).any fun k => !k.exiting).getD 1

def reparent (t new : ℕ) : TimeTree :=
  { s with task := fun c => (s.task c).map fun k =>
      if k.parent = some t then { k with parent := some new } else k }

/-- Who is told of the end of a group: `leader->parent`, or init if there is none. -/
def parentOf (g : TimedGroup) (t : ℕ) : Option ℕ :=
  match (s.task g.leader).bind TimedTask.parent with
  | some p => some p
  | none => if t ≠ 1 ∧ (s.task 1).isSome then some 1 else none

/-- What becomes of the group when the thread leaves. `ignores` says that the leader has asked for
`SIGCHLD` at its end, and the parent has handlers and ignores that, or has `SA_NOCLDWAIT`. -/
def exitKind (g : TimedGroup) (t : ℕ) (ignores : Bool) : ExitKind :=
  if g.threads.erase t ≠ [] ∨ (s.task g.leader).any TimedTask.zombie then .stays
  else
    match (s.parentOf g t).bind s.task with
    | none => .halts
    | some p => if ignores then .released p.group else .zombie

/-- The children's time of a group: `rusage_add`. -/
def credit (g : ℕ) (rusage : Rusage) : TimeTree :=
  match s.group g with
  | some k => s.setGroup g (some { k with childrenRusage := rusageAdd k.childrenRusage rusage })
  | none => s

def destroyThread (t leader : ℕ) : TimeTree := if t = leader then s else s.setTask t none

def setZombie (t : ℕ) : TimeTree :=
  { s with task := fun c => (s.task c).map fun k => if c = t then { k with zombie := true } else k }

/-- The state where the thread is about to leave: it is exiting, and its children have been given
away. -/
def handOver (t : ℕ) (k : TimedTask) (g : TimedGroup) : TimeTree :=
  let s' := s.setTask t (some { k with exiting := true, saved := none })
  s'.reparent t (s'.findNewParent g)

/-- `do_exit` from where it takes `pids_lock`. -/
def leave (t : ℕ) (ignores : Bool) : TimeTree :=
  match s.task t, s.groupOf t with
  | some k, some g =>
    match k.saved with
    | none => s
    | some groupRusage =>
      let s' := s.handOver t k g
      match s'.exitKind g t ignores with
      | .stays => (s'.setGroup k.group (some { g with threads := g.threads.erase t })).destroyThread
          t g.leader
      | .halts => { s with halted := true }
      | .zombie => ((s'.setGroup k.group (some { g with threads := [] })).setZombie
          g.leader).destroyThread t g.leader
      | .released parent => (((s'.credit parent groupRusage).setGroup k.group none).setTask
          g.leader none).destroyThread t g.leader
  | _, _ => s

/-- `do_exit_group` gives up on the threads of the group that do not exit. -/
def abandon (t : ℕ) : TimeTree :=
  match s.running t, s.groupOf t with
  | some k, some g =>
    { s with
      task := fun c => (s.task c).map fun k' =>
        if c ≠ t ∧ c ∈ g.threads then { k' with exiting := true } else k'
      group := update s.group k.group (some { g with
        threads := g.threads.filter fun c => c = t ∨ (s.task c).any TimedTask.exiting }) }
  | _, _ => s

/-- The group that a wait for a pid finds: the task has a parent in the group of the caller, and the
leader is a zombie. -/
def found (t id : ℕ) : Option (ℕ × TimedGroup) :=
  (s.running t).bind fun caller => (s.task id).bind fun k => (s.group k.group).bind fun g =>
    if ((k.parent.bind s.task).any fun p => p.group = caller.group) ∧
        (s.task g.leader).any TimedTask.zombie then some (k.group, g)
    else none

/-- `reap_if_zombie`, by a thread of a group. -/
def reapIfZombie (t id : ℕ) (wnowait : Bool) : TimeTree :=
  match s.running t, s.found t id with
  | some k, some (c, g) =>
    if wnowait then s
    else ((s.credit k.group g.rusage).setGroup c none).setTask g.leader none
  | _, _ => s

end TimeTree

/-- What the tasks do, with the times that the host has for threads that exit or are given up. -/
inductive TimeEvent
  | fork (t : ℕ)
  | newThread (t : ℕ)
  | account (t : ℕ) (rusage : HostTimes)
  | leave (t : ℕ) (ignores : Bool)
  | abandon (t : ℕ) (spent : ℕ → HostTimes)
  | wait (t id : ℕ) (wnowait : Bool)

namespace TimeTree

def step (s : TimeTree) : TimeEvent → TimeTree
  | .fork t            => s.fork t
  | .newThread t       => s.newThread t
  | .account t rusage  => s.account t rusage.toRusage
  | .leave t ignores   => s.leave t ignores
  | .abandon t _       => s.abandon t
  | .wait t id wnowait => s.reapIfZombie t id wnowait

def victims (s : TimeTree) (t : ℕ) (g : TimedGroup) : List ℕ :=
  g.threads.filter fun c => c ≠ t ∧ ¬ (s.task c).any TimedTask.exiting

def init : TimeTree where
  task t := if t = 1 then some ⟨0, none, false, false, none⟩ else none
  group g := if g = 0 then some ⟨1, [1], .zero, .zero⟩ else none
  nextTask := 2
  nextGroup := 1
  halted := false

def exitOf (s : TimeTree) (t : ℕ) (ignores : Bool) : Option (ℕ × Rusage × ExitKind) :=
  (s.task t).bind fun k => (s.groupOf t).bind fun g => k.saved.map fun r =>
    (k.group, r, (s.handOver t k g).exitKind g t ignores)

/-- The child group whose times are reported, in a wait or with the signal to the parent. -/
def report (s : TimeTree) : TimeEvent → Option (ℕ × Rusage)
  | .wait t id _ => (s.found t id).map fun c => (c.1, c.2.rusage)
  | .leave t ignores => (s.exitOf t ignores).bind fun
    | (g, r, .zombie)     => some (g, r)
    | (g, r, .released _) => some (g, r)
    | (_, _, _)           => none
  | _ => none

def releases (s : TimeTree) : TimeEvent → Option (ℕ × ℕ)
  | .wait t id false => (s.running t).bind fun k => (s.found t id).map fun c => (c.1, k.group)
  | .leave t ignores => (s.exitOf t ignores).bind fun
    | (g, _, .released parent) => some (g, parent)
    | (_, _, _)            => none
  | _ => none

end TimeTree

/-! ### The ledger -/

/-- What the threads of each group have used; what its children have used that have been released,
with the children of these; and the groups that have been released. -/
structure TimeLedger where
  own : ℕ → ℕ × ℕ
  kids : ℕ → ℕ × ℕ
  released : List ℕ

namespace TimeLedger

variable (l : TimeLedger)

def use (g : ℕ) (times : ℕ × ℕ) : TimeLedger := { l with own := update l.own g (l.own g + times) }

def release (c g : ℕ) : TimeLedger :=
  { l with
    kids := update l.kids g (l.kids g + (l.own c + l.kids c))
    released := c :: l.released }

def next (s : TimeTree) (e : TimeEvent) : TimeLedger :=
  match e with
  | .account t rusage =>
    match s.running t, s.groupOf t with
    | some k, some _ => l.use k.group rusage.micros
    | _, _           => l
  | .abandon t spent =>
    match s.running t, s.groupOf t with
    | some k, some g => l.use k.group (((s.victims t g).map fun c => (spent c).micros).sum)
    | _, _           => l
  | e =>
    match s.releases e with
    | some (c, g) => l.release c g
    | none        => l

end TimeLedger

def timedStep (w : TimeTree × TimeLedger) (e : TimeEvent) : TimeTree × TimeLedger :=
  if w.1.halted then w else (w.1.step e, w.2.next w.1 e)

def timedInit : TimeTree × TimeLedger := (.init, ⟨fun _ => 0, fun _ => 0, []⟩)

/-- The groups hold what is in the ledger, and no group has been released twice. -/
structure TimesExact (w : TimeTree × TimeLedger) : Prop where
  times : ∀ c g, w.1.group c = some g →
    g.rusage.Is (w.2.own c) ∧ g.childrenRusage.Is (w.2.kids c)
  once : w.2.released.Nodup

def TimesReported (w : TimeTree × TimeLedger) (e : TimeEvent) : Prop :=
  ∀ c r, w.1.report e = some (c, r) → r.Is (w.2.own c) ∧
    clockFromTimeval r.utime = (w.2.own c).1 / 10000 % 2 ^ 32 ∧
    clockFromTimeval r.stime = (w.2.own c).2 / 10000 % 2 ^ 32

/-- No process forks that has lost a thread with its time; the last thread to leave a group was the
last to count its time; a child has no times of children of its own when it is released; and no
thread is given up. -/
def TimesFit (w : TimeTree × TimeLedger) : TimeEvent → Prop
  | .fork t => ∀ g, w.1.groupOf t = some g → g.rusage = .zero
  | .leave t ignores => ∀ c r, w.1.report (.leave t ignores) = some (c, r) → ∀ g,
      w.1.group c = some g → r = g.rusage ∧
        (w.1.releases (.leave t ignores) ≠ none → g.childrenRusage = .zero)
  | .wait t id wnowait => ∀ c p, w.1.releases (.wait t id wnowait) = some (c, p) → ∀ g,
      w.1.group c = some g → g.childrenRusage = .zero
  | .abandon t _ => ∀ g, w.1.groupOf t = some g → w.1.victims t g = []
  | _ => True

/-! ### Adding times -/

section Times

variable {a b : Rusage} {x y : ℕ × ℕ}

lemma timevalAdd_micros (t u : Timeval) : (timevalAdd t u).micros = t.micros + u.micros := by
  rw [timevalAdd]
  split_ifs <;> simp only [Timeval.micros] <;> omega

lemma timevalAdd_usec {t u : Timeval} (ht : t.usec < 1000000) (hu : u.usec < 1000000) :
    (timevalAdd t u).usec < 1000000 := by
  rw [timevalAdd]
  split_ifs
  · simp only
    omega
  · simp only
    omega

lemma Rusage.Is.add (ha : a.Is x) (hb : b.Is y) : (rusageAdd a b).Is (x + y) where
  utime := timevalAdd_usec ha.utime hb.utime
  stime := timevalAdd_usec ha.stime hb.stime
  micros := by
    rw [← ha.micros, ← hb.micros]
    exact Prod.ext (timevalAdd_micros _ _) (timevalAdd_micros _ _)

lemma Rusage.is_zero : Rusage.zero.Is 0 := ⟨by decide, by decide, rfl⟩

lemma HostTimes.is_micros (host : HostTimes) : host.toRusage.Is host.micros :=
  ⟨host.utime_lt, host.stime_lt, rfl⟩

lemma clockFromTimeval_eq (t : Timeval) :
    clockFromTimeval t = t.micros / 10000 % 2 ^ 32 := by
  rw [clockFromTimeval, Timeval.micros]
  congr 1
  omega

end Times

/-! ### The tree and the ledger agree -/

/-- The groups hold what is in the ledger; the groups and the ledger are empty from the next name
on; and the groups that have been released are no more. -/
structure TimesBooked (s : TimeTree) (l : TimeLedger) : Prop where
  times : ∀ c g, s.group c = some g → g.rusage.Is (l.own c) ∧ g.childrenRusage.Is (l.kids c)
  fresh : ∀ c, s.nextGroup ≤ c → s.group c = none ∧ l.own c = 0 ∧ l.kids c = 0
  task_lt : ∀ t k, s.task t = some k → k.group < s.nextGroup
  once : l.released.Nodup
  gone : ∀ c ∈ l.released, s.group c = none ∧ c < s.nextGroup

def TimedGroup.times (g : TimedGroup) : Rusage × Rusage := (g.rusage, g.childrenRusage)

structure SameTimes (s s' : TimeTree) : Prop where
  nextGroup : s'.nextGroup = s.nextGroup
  group : ∀ c, (s'.group c).map TimedGroup.times = (s.group c).map TimedGroup.times
  task : ∀ t k, s'.task t = some k → ∃ u k', s.task u = some k' ∧ k'.group = k.group

section Same

variable {s s' s'' : TimeTree} {l : TimeLedger} {t c : ℕ} {k : TimedTask} {g g' : TimedGroup}

@[simp] lemma TimeTree.setTask_self (j : Option TimedTask) : (s.setTask t j).task t = j :=
  update_self _ _ _

lemma TimeTree.setTask_of_ne {u : ℕ} (h : u ≠ t) (j : Option TimedTask) :
    (s.setTask t j).task u = s.task u := update_of_ne h _ _

@[simp] lemma TimeTree.setGroup_self (j : Option TimedGroup) : (s.setGroup c j).group c = j :=
  update_self _ _ _

lemma TimeTree.setGroup_of_ne {d : ℕ} (h : d ≠ c) (j : Option TimedGroup) :
    (s.setGroup c j).group d = s.group d := update_of_ne h _ _

lemma TimeLedger.kids_release (parent : ℕ) :
    (l.release c parent).kids parent = l.kids parent + (l.own c + l.kids c) := update_self _ _ _

lemma TimeLedger.kids_release_of_ne {parent d : ℕ} (h : d ≠ parent) :
    (l.release c parent).kids d = l.kids d := update_of_ne h _ _

lemma TimeLedger.own_use (times : ℕ × ℕ) : (l.use c times).own c = l.own c + times :=
  update_self _ _ _

lemma TimeLedger.own_use_of_ne {d : ℕ} (h : d ≠ c) (times : ℕ × ℕ) :
    (l.use c times).own d = l.own d := update_of_ne h _ _

lemma SameTimes.refl (s : TimeTree) : SameTimes s s :=
  ⟨rfl, fun _ => rfl, fun t k h => ⟨t, k, h, rfl⟩⟩

lemma SameTimes.trans (h : SameTimes s s') (h' : SameTimes s' s'') : SameTimes s s'' := by
  refine ⟨h'.nextGroup.trans h.nextGroup, fun c => (h'.group c).trans (h.group c), ?_⟩
  intro t k hk
  obtain ⟨u, k', hk', hgroup⟩ := h'.task t k hk
  obtain ⟨v, k'', hk'', hgroup'⟩ := h.task u k' hk'
  exact ⟨v, k'', hk'', hgroup'.trans hgroup⟩

lemma sameTimes_setTask_none (s : TimeTree) (t : ℕ) : SameTimes s (s.setTask t none) := by
  refine ⟨rfl, fun _ => rfl, fun u k hk => ⟨u, k, ?_, rfl⟩⟩
  by_cases hu : u = t
  · rw [hu, TimeTree.setTask_self] at hk
    cases hk
  · rwa [TimeTree.setTask_of_ne hu] at hk

lemma sameTimes_destroyThread (s : TimeTree) (t leader : ℕ) :
    SameTimes s (s.destroyThread t leader) := by
  rw [TimeTree.destroyThread]
  split_ifs
  · exact .refl s
  · exact sameTimes_setTask_none s t

lemma sameTimes_setTask (hk : s.task t = some k) {k' : TimedTask} (hgroup : k'.group = k.group) :
    SameTimes s (s.setTask t (some k')) := by
  refine ⟨rfl, fun _ => rfl, fun u j hj => ?_⟩
  by_cases hu : u = t
  · rw [hu, TimeTree.setTask_self] at hj
    cases hj
    exact ⟨t, k, hk, hgroup.symm⟩
  · rw [TimeTree.setTask_of_ne hu] at hj
    exact ⟨u, j, hj, rfl⟩

lemma sameTimes_map {f : ℕ → TimedTask → TimedTask} (hf : ∀ u k, (f u k).group = k.group) :
    SameTimes s { s with task := fun u => (s.task u).map (f u) } := by
  refine ⟨rfl, fun _ => rfl, fun u j hj => ?_⟩
  obtain ⟨k, hk, rfl⟩ := Option.map_eq_some_iff.mp hj
  exact ⟨u, k, hk, (hf u k).symm⟩

lemma sameTimes_reparent (s : TimeTree) (t new : ℕ) : SameTimes s (s.reparent t new) := by
  refine sameTimes_map (f := fun _ k => if k.parent = some t then { k with parent := some new }
    else k) fun u k => ?_
  split_ifs <;> rfl

lemma sameTimes_setZombie (s : TimeTree) (t : ℕ) : SameTimes s (s.setZombie t) := by
  refine sameTimes_map (f := fun c k => if c = t then { k with zombie := true } else k)
    fun u k => ?_
  split_ifs <;> rfl

lemma sameTimes_setGroup (hg : s.group c = some g) (htimes : g'.times = g.times) :
    SameTimes s (s.setGroup c (some g')) := by
  refine ⟨rfl, fun d => ?_, fun u k hk => ⟨u, k, hk, rfl⟩⟩
  by_cases hd : d = c
  · rw [hd, TimeTree.setGroup_self, hg, Option.map_some, Option.map_some, htimes]
  · rw [TimeTree.setGroup_of_ne hd]

lemma sameTimes_handOver (hk : s.task t = some k) (g : TimedGroup) :
    SameTimes s (s.handOver t k g) := by
  have hexiting : SameTimes s (s.setTask t (some { k with exiting := true, saved := none })) :=
    sameTimes_setTask hk rfl
  exact hexiting.trans (sameTimes_reparent _ _ _)

lemma SameTimes.booked (h : SameTimes s s') (hb : TimesBooked s l) : TimesBooked s' l := by
  have hnone (c : ℕ) (hc : s.group c = none) : s'.group c = none := by
    have hmap := h.group c
    rwa [hc, Option.map_none, Option.map_eq_none_iff] at hmap
  refine ⟨fun c g hg => ?_, fun c hc => ?_, fun t k hk => ?_, hb.once, fun c hc => ?_⟩
  · have hmap := h.group c
    rw [hg, Option.map_some] at hmap
    obtain ⟨g₀, hg₀, htimes⟩ := Option.map_eq_some_iff.mp hmap.symm
    obtain ⟨hrusage, hchildren⟩ := Prod.mk.inj htimes
    have hold := hb.times c g₀ hg₀
    rwa [hrusage, hchildren] at hold
  · rw [h.nextGroup] at hc
    exact ⟨hnone c (hb.fresh c hc).1, (hb.fresh c hc).2⟩
  · obtain ⟨u, k', hk', hgroup⟩ := h.task t k hk
    rw [h.nextGroup, ← hgroup]
    exact hb.task_lt u k' hk'
  · rw [h.nextGroup]
    exact ⟨hnone c (hb.gone c hc).1, (hb.gone c hc).2⟩

lemma TimesBooked.release (hb : TimesBooked s l) (hg : s.group c = some g)
    (hzero : g.childrenRusage = .zero) {parent : ℕ} (hparent : parent < s.nextGroup) :
    TimesBooked ((s.credit parent g.rusage).setGroup c none) (l.release c parent) := by
  have hlt : c < s.nextGroup := by
    by_contra hge
    have hnone := (hb.fresh c (Nat.not_lt.mp hge)).1
    rw [hg] at hnone
    cases hnone
  have hkids : l.kids c = 0 := by
    have his := (hb.times c g hg).2
    rw [hzero] at his
    exact his.micros.symm
  have hnext : (s.credit parent g.rusage).nextGroup = s.nextGroup := by
    rw [TimeTree.credit]
    split <;> rfl
  have htask : (s.credit parent g.rusage).task = s.task := by
    rw [TimeTree.credit]
    split <;> rfl
  have hother (d : ℕ) (hd : d ≠ parent) : (s.credit parent g.rusage).group d = s.group d := by
    rw [TimeTree.credit]
    split
    · exact update_of_ne hd _ _
    · rfl
  have hnone (d : ℕ) (hd : s.group d = none) : (s.credit parent g.rusage).group d = none := by
    by_cases hdp : d = parent
    · rw [TimeTree.credit, ← hdp, hd]
      exact hd
    · rw [hother d hdp]
      exact hd
  have hcredit (d : ℕ) (j : TimedGroup) (hj : (s.credit parent g.rusage).group d = some j) :
      j.rusage.Is (l.own d) ∧ j.childrenRusage.Is ((l.release c parent).kids d) := by
    by_cases hd : d = parent
    · subst hd
      rw [TimeTree.credit] at hj
      cases hold : s.group d with
      | none =>
        rw [hold] at hj
        simp only [hold] at hj
        cases hj
      | some j₀ =>
        rw [hold] at hj
        simp only [TimeTree.setGroup_self] at hj
        cases hj
        have his := hb.times d j₀ hold
        refine ⟨his.1, ?_⟩
        rw [TimeLedger.kids_release, hkids, add_zero]
        exact his.2.add (hb.times c g hg).1
    · rw [hother d hd] at hj
      rw [TimeLedger.kids_release_of_ne hd]
      exact hb.times d j hj
  refine ⟨fun d j hj => ?_, fun d hd => ?_, fun t k hk => ?_, ?_, fun d hd => ?_⟩
  · by_cases hdc : d = c
    · rw [hdc, TimeTree.setGroup_self] at hj
      cases hj
    · rw [TimeTree.setGroup_of_ne hdc] at hj
      exact hcredit d j hj
  · change (s.credit parent g.rusage).nextGroup ≤ d at hd
    rw [hnext] at hd
    have hdc : d ≠ c := by omega
    have hdp : d ≠ parent := by omega
    rw [TimeTree.setGroup_of_ne hdc, hother d hdp, TimeLedger.kids_release_of_ne hdp]
    exact hb.fresh d hd
  · change (s.credit parent g.rusage).task t = some k at hk
    change k.group < (s.credit parent g.rusage).nextGroup
    rw [htask] at hk
    rw [hnext]
    exact hb.task_lt t k hk
  · refine List.nodup_cons.mpr ⟨fun hmem => ?_, hb.once⟩
    have hnone := (hb.gone c hmem).1
    rw [hg] at hnone
    cases hnone
  · change _ ∧ d < (s.credit parent g.rusage).nextGroup
    rw [hnext]
    obtain rfl | hold := List.mem_cons.mp hd
    · exact ⟨update_self _ _ _, hlt⟩
    · have hold := hb.gone d hold
      refine ⟨?_, hold.2⟩
      by_cases hdc : d = c
      · rw [hdc]
        exact update_self _ _ _
      · rw [TimeTree.setGroup_of_ne hdc]
        exact hnone d hold.1

end Same

/-! ### The steps -/

section Steps

variable {s : TimeTree} {l : TimeLedger} {t id c p : ℕ} {k : TimedTask} {g : TimedGroup}
  {r : Rusage} {ignores wnowait : Bool}

lemma task_of_running (h : s.running t = some k) : s.task t = some k :=
  (Option.filter_eq_some_iff.mp h).1

lemma group_of_groupOf (hk : s.task t = some k) (h : s.groupOf t = some g) :
    s.group k.group = some g := by
  rwa [TimeTree.groupOf, hk, Option.bind_some] at h

lemma exitOf_some {kind : ExitKind} (h : s.exitOf t ignores = some (c, r, kind)) :
    ∃ k g, s.task t = some k ∧ k.group = c ∧ s.groupOf t = some g ∧ s.group c = some g ∧
      k.saved = some r ∧ (s.handOver t k g).exitKind g t ignores = kind := by
  rw [TimeTree.exitOf] at h
  obtain ⟨k, hk, h⟩ := Option.bind_eq_some_iff.mp h
  obtain ⟨g, hg, h⟩ := Option.bind_eq_some_iff.mp h
  obtain ⟨r', hr, h⟩ := Option.map_eq_some_iff.mp h
  cases h
  exact ⟨k, g, hk, rfl, hg, group_of_groupOf hk hg, hr, rfl⟩

lemma leave_none (h : s.exitOf t ignores = none) : s.leave t ignores = s := by
  rw [TimeTree.leave]
  cases hk : s.task t with
  | none => rfl
  | some k =>
    cases hg : s.groupOf t with
    | none => rfl
    | some g =>
      cases hr : k.saved with
      | none => simp only [hr]
      | some r =>
        rw [TimeTree.exitOf, hk, Option.bind_some, hg, Option.bind_some, hr] at h
        cases h

lemma leave_some {kind : ExitKind} (h : s.exitOf t ignores = some (c, r, kind)) :
    match kind with
    | .released parent => ∃ s', SameTimes s s' ∧
        SameTimes ((s'.credit parent r).setGroup c none) (s.leave t ignores)
    | .halts => SameTimes s (s.leave t ignores)
    | .zombie => SameTimes s (s.leave t ignores)
    | .stays => SameTimes s (s.leave t ignores) := by
  obtain ⟨k, g, hk, rfl, hgroup, hg, hr, hkind⟩ := exitOf_some h
  have hover := sameTimes_handOver hk g
  have hg' : (s.handOver t k g).group k.group = some g := hg
  rw [TimeTree.leave, hk, hgroup]
  simp only [hr]
  cases kind with
  | stays =>
    simp only [hkind]
    have hset : SameTimes (s.handOver t k g) ((s.handOver t k g).setGroup k.group
      (some { g with threads := g.threads.erase t })) := sameTimes_setGroup hg' rfl
    exact (hover.trans hset).trans (sameTimes_destroyThread _ _ _)
  | halts =>
    simp only [hkind]
    exact ⟨rfl, fun _ => rfl, fun u j hj => ⟨u, j, hj, rfl⟩⟩
  | zombie =>
    simp only [hkind]
    have hset : SameTimes (s.handOver t k g) ((s.handOver t k g).setGroup k.group
      (some { g with threads := [] })) := sameTimes_setGroup hg' rfl
    exact ((hover.trans hset).trans (sameTimes_setZombie _ _)).trans
      (sameTimes_destroyThread _ _ _)
  | released parent =>
    simp only [hkind]
    exact ⟨s.handOver t k g, hover,
      (sameTimes_setTask_none _ _).trans (sameTimes_destroyThread _ _ _)⟩

lemma released_lt (hb : TimesBooked s l) {parent : ℕ}
    (h : s.exitOf t ignores = some (c, r, .released parent)) : parent < s.nextGroup := by
  obtain ⟨k, g, hk, -, -, -, -, hkind⟩ := exitOf_some h
  have hover := (sameTimes_handOver hk g).booked hb
  rw [TimeTree.exitKind] at hkind
  cases hfound : ((s.handOver t k g).parentOf g t).bind (s.handOver t k g).task with
  | none =>
    rw [hfound] at hkind
    split_ifs at hkind
  | some q =>
    rw [hfound] at hkind
    split_ifs at hkind
    cases hkind
    obtain ⟨p, -, hq⟩ := Option.bind_eq_some_iff.mp hfound
    exact hover.task_lt p q hq

lemma found_some (h : s.found t id = some (c, g)) : s.group c = some g := by
  rw [TimeTree.found] at h
  obtain ⟨caller, -, h⟩ := Option.bind_eq_some_iff.mp h
  obtain ⟨k, -, h⟩ := Option.bind_eq_some_iff.mp h
  obtain ⟨g', hg', h⟩ := Option.bind_eq_some_iff.mp h
  split_ifs at h
  cases h
  exact hg'

lemma booked_fork (hb : TimesBooked s l) (hfit : ∀ g, s.groupOf t = some g → g.rusage = .zero) :
    TimesBooked (s.fork t) l := by
  rw [TimeTree.fork]
  cases hk : s.running t with
  | none => exact hb
  | some k =>
    cases hg : s.groupOf t with
    | none => exact hb
    | some g =>
      have hzero := hfit g hg
      have hnew := hb.fresh s.nextGroup le_rfl
      refine ⟨fun c j hj => ?_, fun c hc => ?_, fun u j hj => ?_, hb.once, fun c hc => ?_⟩
      · by_cases hc : c = s.nextGroup
        · simp only [hc, update_self, Option.some.injEq] at hj
          subst hj
          rw [hc, hnew.2.1, hnew.2.2, hzero]
          exact ⟨Rusage.is_zero, Rusage.is_zero⟩
        · simp only [update_of_ne hc] at hj
          exact hb.times c j hj
      · simp only at hc ⊢
        rw [update_of_ne (by omega)]
        exact hb.fresh c (by omega)
      · simp only
        by_cases hu : u = s.nextTask
        · simp only [hu, update_self, Option.some.injEq] at hj
          subst hj
          exact Nat.lt_succ_self _
        · simp only [update_of_ne hu] at hj
          exact Nat.lt_succ_of_lt (hb.task_lt u j hj)
      · have hold := hb.gone c hc
        simp only
        rw [update_of_ne (by omega)]
        exact ⟨hold.1, Nat.lt_succ_of_lt hold.2⟩

lemma sameTimes_newThread (s : TimeTree) (t : ℕ) : SameTimes s (s.newThread t) := by
  rw [TimeTree.newThread]
  cases hk : s.running t with
  | none => exact .refl s
  | some k =>
    cases hg : s.groupOf t with
    | none => exact .refl s
    | some g =>
      have htask := task_of_running hk
      have hset : SameTimes s (s.setGroup k.group
          (some { g with threads := s.nextTask :: g.threads })) :=
        sameTimes_setGroup (group_of_groupOf htask hg) rfl
      refine ⟨rfl, hset.group, fun u j hj => ?_⟩
      by_cases hu : u = s.nextTask
      · simp only [hu, update_self, Option.some.injEq] at hj
        subst hj
        exact ⟨t, k, htask, rfl⟩
      · simp only [update_of_ne hu] at hj
        exact ⟨u, j, hj, rfl⟩

lemma booked_account (hb : TimesBooked s l) (rusage : HostTimes) :
    TimesBooked (s.account t rusage.toRusage) (l.next s (.account t rusage)) := by
  rw [TimeTree.account, TimeLedger.next]
  cases hk : s.running t with
  | none => exact hb
  | some k =>
    cases hg : s.groupOf t with
    | none => exact hb
    | some g =>
      have htask := task_of_running hk
      have hgroup := group_of_groupOf htask hg
      have hlt := hb.task_lt t k htask
      -- first the group and the ledger, and then the task, which stays in its group
      have hsaved (w : TimeTree) (hw : w.task t = some k) : SameTimes w (w.setTask t
          (some { k with saved := some (rusageAdd g.rusage rusage.toRusage) })) :=
        sameTimes_setTask hw rfl
      simp only
      refine (hsaved (s.setGroup k.group _) htask).booked ?_
      refine ⟨fun c j hj => ?_, fun c hc => ?_, hb.task_lt, hb.once, fun c hc => ?_⟩
      · by_cases hc : c = k.group
        · rw [hc, TimeTree.setGroup_self] at hj
          cases hj
          have his := hb.times k.group g hgroup
          rw [hc, TimeLedger.own_use]
          exact ⟨his.1.add rusage.is_micros, his.2⟩
        · rw [TimeTree.setGroup_of_ne hc] at hj
          rw [TimeLedger.own_use_of_ne hc]
          exact hb.times c j hj
      · change s.nextGroup ≤ c at hc
        have hne : c ≠ k.group := by omega
        rw [TimeTree.setGroup_of_ne hne, TimeLedger.own_use_of_ne hne]
        exact hb.fresh c hc
      · have hold := hb.gone c hc
        refine ⟨?_, hold.2⟩
        by_cases hne : c = k.group
        · rw [← hne, hold.1] at hgroup
          cases hgroup
        · rw [TimeTree.setGroup_of_ne hne]
          exact hold.1

lemma booked_leave (hb : TimesBooked s l) (hfit : TimesFit (s, l) (.leave t ignores)) :
    TimesBooked (s.leave t ignores) (l.next s (.leave t ignores)) := by
  cases hexit : s.exitOf t ignores with
  | none =>
    have hnext : l.next s (.leave t ignores) = l := by
      simp only [TimeLedger.next, TimeTree.releases, hexit, Option.bind_none]
    rw [hnext, leave_none hexit]
    exact hb
  | some out =>
    obtain ⟨c, r, kind⟩ := out
    have hstep := leave_some hexit
    cases kind with
    | stays | halts | zombie =>
      have hnext : l.next s (.leave t ignores) = l := by
        simp only [TimeLedger.next, TimeTree.releases, hexit, Option.bind_some]
      rw [hnext]
      exact SameTimes.booked hstep hb
    | released parent =>
      have hreleases : s.releases (.leave t ignores) = some (c, parent) := by
        simp only [TimeTree.releases, hexit, Option.bind_some]
      have hreport : s.report (.leave t ignores) = some (c, r) := by
        simp only [TimeTree.report, hexit, Option.bind_some]
      have hnext : l.next s (.leave t ignores) = l.release c parent := by
        simp only [TimeLedger.next, hreleases]
      obtain ⟨s', hsame, hsame'⟩ := hstep
      obtain ⟨k, g, -, -, -, hg, -⟩ := exitOf_some hexit
      obtain ⟨hr, hzero⟩ := hfit c r hreport g hg
      have hmap := hsame.group c
      rw [hg, Option.map_some] at hmap
      obtain ⟨g', hg', htimes⟩ := Option.map_eq_some_iff.mp hmap
      obtain ⟨hrusage, hchildren⟩ := Prod.mk.inj htimes
      have hzero' : g'.childrenRusage = .zero := by
        rw [hchildren]
        exact hzero (by rw [hreleases]; exact Option.some_ne_none _)
      have hlt : parent < s'.nextGroup := by
        rw [hsame.nextGroup]
        exact released_lt hb hexit
      have hrelease := (hsame.booked hb).release hg' hzero' hlt
      rw [hrusage, ← hr] at hrelease
      rw [hnext]
      exact hsame'.booked hrelease

lemma booked_wait (hb : TimesBooked s l) (hfit : TimesFit (s, l) (.wait t id wnowait)) :
    TimesBooked (s.reapIfZombie t id wnowait) (l.next s (.wait t id wnowait)) := by
  rw [TimeTree.reapIfZombie]
  cases wnowait with
  | true =>
    have hnext : l.next s (.wait t id true) = l := rfl
    rw [hnext]
    split
    · exact hb
    · exact hb
  | false =>
    have hreleases : s.releases (.wait t id false) = (s.running t).bind fun k =>
      (s.found t id).map fun c => (c.1, k.group) := rfl
    cases hk : s.running t with
    | none =>
      rw [hk, Option.bind_none] at hreleases
      simp only [TimeLedger.next, hreleases]
      exact hb
    | some k =>
      cases hfound : s.found t id with
      | none =>
        rw [hk, hfound, Option.bind_some, Option.map_none] at hreleases
        simp only [TimeLedger.next, hreleases]
        exact hb
      | some out =>
        obtain ⟨c, g⟩ := out
        rw [hk, hfound, Option.bind_some, Option.map_some] at hreleases
        have hg := found_some hfound
        have hzero := hfit c k.group hreleases g hg
        have hlt := hb.task_lt t k (task_of_running hk)
        simp only [TimeLedger.next, hreleases, Bool.false_eq_true, if_false]
        exact (sameTimes_setTask_none _ _).booked (hb.release hg hzero hlt)

lemma booked_abandon (hb : TimesBooked s l) {spent : ℕ → HostTimes}
    (hfit : ∀ g, s.groupOf t = some g → s.victims t g = []) :
    TimesBooked (s.abandon t) (l.next s (.abandon t spent)) := by
  rw [TimeTree.abandon, TimeLedger.next]
  cases hk : s.running t with
  | none => exact hb
  | some k =>
    cases hg : s.groupOf t with
    | none => exact hb
    | some g =>
      have hnone := hfit g hg
      have huse : l.use k.group 0 = l := by rw [TimeLedger.use, add_zero, update_eq_self]
      simp only [hnone, List.map_nil, List.sum_nil, huse]
      have hset : SameTimes s (s.setGroup k.group (some { g with
          threads := g.threads.filter fun c => c = t ∨ (s.task c).any TimedTask.exiting })) :=
        sameTimes_setGroup (group_of_groupOf (task_of_running hk) hg) rfl
      refine SameTimes.booked (hset.trans (sameTimes_map
        (f := fun c k' => if c ≠ t ∧ c ∈ g.threads then { k' with exiting := true } else k')
        fun u k => ?_)) hb
      split_ifs <;> rfl

lemma booked_step {e : TimeEvent} (hb : TimesBooked s l) (hfit : TimesFit (s, l) e) :
    TimesBooked (s.step e) (l.next s e) := by
  cases e with
  | fork t => exact booked_fork hb hfit
  | newThread t => exact (sameTimes_newThread s t).booked hb
  | account t rusage => exact booked_account hb rusage
  | leave t ignores => exact booked_leave hb hfit
  | abandon t spent => exact booked_abandon hb hfit
  | wait t id wnowait => exact booked_wait hb hfit

lemma booked_report {e : TimeEvent} (hb : TimesBooked s l) (hfit : TimesFit (s, l) e) :
    TimesReported (s, l) e := by
  have hclock {c : ℕ} {r : Rusage} (hr : r.Is (l.own c)) : r.Is (l.own c) ∧
      clockFromTimeval r.utime = (l.own c).1 / 10000 % 2 ^ 32 ∧
      clockFromTimeval r.stime = (l.own c).2 / 10000 % 2 ^ 32 := by
    refine ⟨hr, ?_, ?_⟩
    · rw [clockFromTimeval_eq, ← hr.micros]
      rfl
    · rw [clockFromTimeval_eq, ← hr.micros]
      rfl
  intro c r hreport
  cases e with
  | wait t id wnowait =>
    obtain ⟨⟨c', g⟩, hfound, heq⟩ := Option.map_eq_some_iff.mp hreport
    cases heq
    exact hclock (hb.times c' g (found_some hfound)).1
  | leave t ignores =>
    obtain ⟨⟨c', r', kind⟩, hexit, hkind⟩ := Option.bind_eq_some_iff.mp hreport
    have hcr : c' = c ∧ r' = r := by
      cases kind with
      | stays | halts => cases hkind
      | zombie | released => exact Prod.mk.inj (Option.some.inj hkind)
    obtain ⟨rfl, rfl⟩ := hcr
    obtain ⟨k, g, -, -, -, hg, -⟩ := exitOf_some hexit
    have his := (hb.times c' g hg).1
    rw [← (hfit c' r' hreport g hg).1] at his
    exact hclock his
  | fork | newThread | account | abandon => cases hreport

end Steps

/-- The times of children are counted exactly in every run whose steps fit: the groups hold what is
in the ledger, no child is counted twice, and what is reported of a child is what its threads have
used. -/
theorem child_times_exact (es : List TimeEvent) (h : RunAll timedStep TimesFit timedInit es) :
    TimesExact (run timedStep timedInit es) ∧
      ∀ e, TimesFit (run timedStep timedInit es) e →
        TimesReported (run timedStep timedInit es) e := by
  have hinit : TimesBooked timedInit.1 timedInit.2 := by
    refine ⟨fun c g hg => ?_, fun c hc => ?_, fun t k hk => ?_, List.nodup_nil, ?_⟩
    · simp only [timedInit, TimeTree.init] at hg
      split_ifs at hg
      cases hg
      exact ⟨Rusage.is_zero, Rusage.is_zero⟩
    · have hne : c ≠ 0 := Nat.one_le_iff_ne_zero.mp hc
      exact ⟨if_neg hne, rfl, rfl⟩
    · simp only [timedInit, TimeTree.init] at hk
      split_ifs at hk
      cases hk
      exact Nat.zero_lt_one
    · exact fun c hc => absurd hc List.not_mem_nil
  have hbooked := run_invariant (P := fun w => TimesBooked w.1 w.2) (fun w e hfit hb => by
    rw [timedStep]
    split_ifs
    · exact hb
    · exact booked_step hb hfit) h hinit
  exact ⟨⟨hbooked.times, hbooked.once⟩, fun e hfit => booked_report hbooked hfit⟩

def hostSeconds (n : ℕ) : HostTimes := ⟨⟨⟨n, 0⟩, ⟨0, 0⟩⟩, Nat.zero_lt_succ _, Nat.zero_lt_succ _⟩

/-- Init has a child that uses three seconds, and waits for it. -/
theorem child_times_exact_one : TimesExact (run timedStep timedInit
    [.fork 1, .account 2 (hostSeconds 3), .leave 2 false, .wait 1 2 false]) := by
  refine (child_times_exact _ ?_).1
  refine ⟨?_, trivial, ?_, ?_, trivial⟩
  · rintro g hg
    cases hg
    rfl
  · rintro c r hr g hg
    cases hr
    cases hg
    exact ⟨rfl, fun _ => rfl⟩
  · rintro c p hr g hg
    cases hr
    cases hg
    rfl

def inheritedTimes : List TimeEvent :=
  [.newThread 1, .account 2 (hostSeconds 5), .leave 2 false, .fork 1]

/-- A child waits for a child of its own, which has used seven seconds, and is waited for. -/
def lostTimes : List TimeEvent :=
  [.fork 1, .fork 2, .account 3 (hostSeconds 7), .leave 3 false, .wait 2 3 false,
    .account 2 (hostSeconds 1), .leave 2 false, .wait 1 2 false]

/-- The new child has the time of the thread; and init has nothing of the grandchild. -/
theorem child_times_exact_fails : ¬ TimesExact (run timedStep timedInit inheritedTimes) ∧
    ¬ TimesExact (run timedStep timedInit lostTimes) := by
  constructor
  · intro h
    have his := (h.times 1 _ rfl).1.micros
    exact absurd his (by decide)
  · intro h
    have his := (h.times 0 _ rfl).2.micros
    exact absurd his (by decide)

end ShellBox
