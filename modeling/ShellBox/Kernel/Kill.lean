import ShellBox.Kernel.Credentials
import ShellBox.Kernel.ProcessGroups

/-!
# Kill

`do_kill` takes `pids_lock` and signals one task, the leaders on the list of a process group, or all
leaders that a scan of the table finds. The helpers run with the lock held.

A task gets a signal if `send_signal` comes to the task's signal table; the signal 0 only tests.
-/

namespace ShellBox

/-- The pid table with the ids of its tasks, as the caller of `kill` finds it. Pids begin at 1; a
thread's leader is in the table as long as the thread, and the process groups are lists of
leaders. -/
structure KillTable extends PidTable where
  ids : ℕ → Ids
  caller : ℕ
  unused : ∀ p, p = 0 ∨ maxPid < p → task p = none ∧ pgroup p = []
  leader : ∀ p t, task p = some t → ∃ t', task t.group = some t' ∧ t'.group = t.group
  members : ∀ g p, p ∈ pgroup g → ∃ t, task p = some t ∧ t.group = p
  running : ∃ t, task caller = some t

/-- What a call has done: how often it took and released `pids_lock`, the tasks that got the signal,
and those for which `kill_task` returned 0. -/
structure KillState where
  acquired : ℕ
  released : ℕ
  sent : List ℕ
  accepted : List ℕ

def killEperm : ℤ := -1
def killEsrch : ℤ := -3
def killEinval : ℤ := -22
def maxSig : ℕ := 64

namespace KillState

def lock (st : KillState) : KillState := { st with acquired := st.acquired + 1 }

def unlock (st : KillState) : KillState := { st with released := st.released + 1 }

end KillState

/-- The search of `task_create_`, after the pid `cur`. -/
def findPid (empty : ℕ → Bool) (cur : ℕ) : Option ℕ :=
  ((List.range maxPid).map fun i => (cur + i) % maxPid + 1).find? empty

def Allocatable (p : ℕ) : Prop := ∃ empty cur, findPid empty cur = some p

namespace KillTable

variable (w : KillTable)

/-- The check of `kill_task`. -/
def may (a : ℕ) : Bool :=
  let current := w.ids w.caller
  let task := w.ids a
  current.effective = 0 ∨ current.real = task.real ∨ current.real = task.saved ∨
    current.effective = task.real ∨ current.effective = task.saved

/-- `send_signal` does not return at once. -/
def takes (a : ℕ) : Bool := (w.task a).any fun t => ¬ t.zombie ∧ ¬ t.exiting

def killTask (a sig : ℕ) (st : KillState) : ℤ × KillState :=
  if ¬ w.may a then (killEperm, st)
  else
    (0, { st with
      sent := if sig ≠ 0 ∧ w.takes a then a :: st.sent else st.sent
      accepted := a :: st.accepted })

/-- The loop over tasks of `kill_group` and `kill_everything`. -/
def killEach (sig : ℕ) : List ℕ → ℤ → KillState → ℤ × KillState
  | [], err, st => (err, st)
  | a :: as, err, st =>
    let r := w.killTask a sig st
    killEach sig as (if err = killEperm then r.1 else err) r.2

/-- `kill_group`. The lock is released here if there is no such group. -/
def killGroupOf (pgid sig : ℕ) (st : KillState) : ℤ × KillState :=
  if w.noPid pgid then (killEsrch, st.unlock) else w.killEach sig (w.pgroup pgid) killEperm st

def pidGetTask (p : ℕ) : Option ThreadRec :=
  if w.noPid p then none else (w.task p).filter fun t => ¬ t.zombie

/-- The tasks that the scan of `kill_everything` comes to. -/
def scanned (i : ℕ) : Bool :=
  2 ≤ i ∧ i < maxPid ∧ i ≠ w.caller ∧ (w.pidGetTask i).any fun t => t.group = i

def killEverything (sig : ℕ) (st : KillState) : ℤ × KillState :=
  w.killEach sig ((List.range maxPid).filter w.scanned) killEperm st

/-- `current->group->pgid` -/
def callerPgid : ℕ :=
  (((w.task w.caller).bind fun t => w.group t.group).map TgroupRec.pgid).getD 0

def doKill (pid : ℤ) (sig tgid : ℕ) (st : KillState) : ℤ × KillState :=
  if maxSig < sig then (killEinval, st)
  else
    let pid := if pid = 0 then -(w.callerPgid : ℤ) else pid
    let st := st.lock
    if pid = -1 then
      let r := w.killEverything sig st
      (r.1, r.2.unlock)
    else if pid < 0 then
      let r := w.killGroupOf (-pid).toNat sig st
      (r.1, r.2.unlock)
    else
      match w.pidGetTask pid.toNat with
      | none => (killEsrch, st.unlock)
      | some t =>
        if tgid ≠ 0 ∧ t.group ≠ tgid then (killEsrch, st.unlock)
        else
          let r := w.killTask pid.toNat sig st
          (r.1, r.2.unlock)

/-! ### Targets -/

def callerLeader : ℕ := ((w.task w.caller).map ThreadRec.group).getD 0

def Live (a : ℕ) : Prop := ∃ b t, w.task b = some t ∧ ¬ t.zombie ∧ ¬ t.exiting ∧ t.group = a

/-- The tasks that a call is about: every process but the first and the caller's, the processes of a
group, a process, or one thread of it. -/
def Target (pid : ℤ) (tgid a : ℕ) : Prop :=
  if pid = -1 then Allocatable a ∧ w.Live a ∧ a ≠ 1 ∧ a ≠ w.callerLeader
  else if pid < 0 then a ∈ w.pgroup (-pid).toNat ∧ w.Live a
  else if pid = 0 then a ∈ w.pgroup w.callerPgid ∧ w.Live a
  else a = pid.toNat ∧ ∃ t, w.task a = some t ∧ ¬ t.zombie ∧
    if tgid = 0 then ¬ t.exiting ∨ w.Live a else t.group = tgid ∧ ¬ t.exiting

/-- The lock is released as often as it was taken; the signal gets to the targets that the caller
may signal, and to no others; and the call succeeds if one task has accepted. -/
structure Kills (pid : ℤ) (sig tgid : ℕ) : Prop where
  balanced : (w.doKill pid sig tgid ⟨0, 0, [], []⟩).2.released =
    (w.doKill pid sig tgid ⟨0, 0, [], []⟩).2.acquired
  reaches : 0 < sig → sig ≤ maxSig → ∀ a,
    a ∈ (w.doKill pid sig tgid ⟨0, 0, [], []⟩).2.sent ↔ w.Target pid tgid a ∧ w.may a
  success : (w.doKill pid sig tgid ⟨0, 0, [], []⟩).2.accepted ≠ [] →
    (w.doKill pid sig tgid ⟨0, 0, [], []⟩).1 = 0

/-- The pid that `do_kill` goes by. -/
def resolve (pid : ℤ) : ℤ := if pid = 0 then -(w.callerPgid : ℤ) else pid

/-- A group that is named is there; the leader of a process that is meant has not left before its
threads; of all processes none has the last pid, and the caller's own is not found through another
thread; and if the caller's group is 1, its processes are those that the scan finds. -/
structure KillFits (pid : ℤ) (sig tgid : ℕ) : Prop where
  found : sig ≤ maxSig → w.resolve pid < -1 → w.noPid (-w.resolve pid).toNat = false
  leads : 0 < sig → sig ≤ maxSig → ∀ a, w.Target pid tgid a → w.may a → w.takes a
  last : 0 < sig → sig ≤ maxSig → pid = -1 → w.Target pid tgid maxPid → ¬ w.may maxPid
  own : 0 < sig → sig ≤ maxSig → pid = -1 → w.caller ≠ w.callerLeader →
    ¬ (2 ≤ w.callerLeader ∧ w.callerLeader < maxPid ∧ w.may w.callerLeader ∧ w.takes w.callerLeader)
  first : 0 < sig → sig ≤ maxSig → pid = 0 → w.callerPgid = 1 →
    ∀ a, w.may a → w.takes a → (a ∈ w.pgroup 1 ↔ w.scanned a)

/-! ### The loops -/

variable {w}

lemma killTask_locks (a sig : ℕ) (st : KillState) :
    (w.killTask a sig st).2.acquired = st.acquired ∧
      (w.killTask a sig st).2.released = st.released := by
  unfold killTask
  split_ifs <;> exact ⟨rfl, rfl⟩

lemma killEach_cons (a sig : ℕ) (as : List ℕ) (err : ℤ) (st : KillState) :
    w.killEach sig (a :: as) err st =
      w.killEach sig as (if err = killEperm then (w.killTask a sig st).1 else err)
        (w.killTask a sig st).2 := rfl

lemma killEach_locks (sig : ℕ) (as : List ℕ) (err : ℤ) (st : KillState) :
    (w.killEach sig as err st).2.acquired = st.acquired ∧
      (w.killEach sig as err st).2.released = st.released := by
  induction as generalizing err st with
  | nil => exact ⟨rfl, rfl⟩
  | cons a as ih =>
    obtain ⟨hacquired, hreleased⟩ := w.killTask_locks a sig st
    obtain ⟨hacquired', hreleased'⟩ :=
      ih (if err = killEperm then (w.killTask a sig st).1 else err) (w.killTask a sig st).2
    exact ⟨hacquired'.trans hacquired, hreleased'.trans hreleased⟩

lemma mem_sent_killTask {a sig : ℕ} {st : KillState} (hsig : 0 < sig) (b : ℕ) :
    b ∈ (w.killTask a sig st).2.sent ↔ b = a ∧ w.may a ∧ w.takes a ∨ b ∈ st.sent := by
  unfold killTask
  by_cases hmay : w.may a
  · by_cases htakes : w.takes a
    · simp [hmay, htakes, hsig.ne']
    · simp [hmay, htakes]
  · simp [hmay]

lemma mem_sent_killEach {sig : ℕ} (hsig : 0 < sig) (as : List ℕ) (err : ℤ) (st : KillState)
    (b : ℕ) : b ∈ (w.killEach sig as err st).2.sent ↔
      b ∈ as ∧ w.may b ∧ w.takes b ∨ b ∈ st.sent := by
  induction as generalizing err st with
  | nil => simp [killEach]
  | cons a as ih =>
    rw [killEach_cons, ih, mem_sent_killTask hsig, List.mem_cons]
    constructor
    · rintro (⟨hmem, hboth⟩ | ⟨rfl, hboth⟩ | hold)
      · exact Or.inl ⟨Or.inr hmem, hboth⟩
      · exact Or.inl ⟨Or.inl rfl, hboth⟩
      · exact Or.inr hold
    · rintro (⟨rfl | hmem, hboth⟩ | hold)
      · exact Or.inr (Or.inl ⟨rfl, hboth⟩)
      · exact Or.inl ⟨hmem, hboth⟩
      · exact Or.inr (Or.inr hold)

end KillTable

def KillState.Sound (r : ℤ × KillState) : Prop := r.1 = 0 ∨ r.1 = killEperm ∧ r.2.accepted = []

namespace KillTable

variable {w : KillTable}

lemma sound_killEach (sig : ℕ) (as : List ℕ) {err : ℤ} {st : KillState}
    (h : KillState.Sound (err, st)) : KillState.Sound (w.killEach sig as err st) := by
  induction as generalizing err st with
  | nil => exact h
  | cons a as ih =>
    rw [killEach_cons]
    apply ih
    by_cases hmay : w.may a
    · have hkill : (w.killTask a sig st).1 = 0 := by simp [killTask, hmay]
      rw [hkill]
      rcases h with h | ⟨h, -⟩
      · refine Or.inl ?_
        rw [show err = 0 from h]
        rfl
      · exact Or.inl (if_pos h)
    · have hkill : w.killTask a sig st = (killEperm, st) := by simp [killTask, hmay]
      rw [hkill]
      rcases h with h | ⟨h, hnone⟩
      · refine Or.inl ?_
        rw [show err = 0 from h]
        rfl
      · exact Or.inr ⟨if_pos h, hnone⟩

/-! ### One call -/

lemma noPid_eq_false {p : ℕ} {t : ThreadRec} (ht : w.task p = some t) : w.noPid p = false := by
  have hle : ¬ maxPid < p := fun hlt => by simp [(w.unused p (Or.inr hlt)).1] at ht
  simp [PidTable.noPid, PidTable.pidEmpty, hle, ht]

lemma pidGetTask_eq_some {p : ℕ} {t : ThreadRec} :
    w.pidGetTask p = some t ↔ w.task p = some t ∧ t.zombie = false := by
  unfold pidGetTask
  constructor
  · intro h
    split_ifs at h
    simpa [Option.filter_eq_some_iff] using h
  · rintro ⟨ht, hzombie⟩
    rw [noPid_eq_false ht, if_neg Bool.false_ne_true, ht]
    simp [Option.filter, hzombie]

lemma takes_iff {a : ℕ} :
    w.takes a ↔ ∃ t, w.task a = some t ∧ t.zombie = false ∧ t.exiting = false := by
  simp [takes, Option.any_eq_true]

lemma task_pos {a : ℕ} {t : ThreadRec} (ht : w.task a = some t) : 0 < a ∧ a ≤ maxPid := by
  by_contra hout
  have hnone := (w.unused a (by omega)).1
  rw [hnone] at ht
  exact Option.some_ne_none t ht.symm

lemma allocatable_iff {p : ℕ} : Allocatable p ↔ 0 < p ∧ p ≤ maxPid := by
  have hpos : 0 < maxPid := by decide
  unfold Allocatable findPid
  generalize maxPid = n at hpos ⊢
  constructor
  · rintro ⟨empty, cur, hfind⟩
    obtain ⟨i, -, rfl⟩ := List.mem_map.mp (List.mem_of_find?_eq_some hfind)
    exact ⟨Nat.succ_pos _, Nat.mod_lt _ hpos⟩
  · rintro ⟨hp, hle⟩
    refine ⟨fun q => decide (q = p), p - 1, ?_⟩
    have hfirst : p ∈ (List.range n).map fun i => (p - 1 + i) % n + 1 := by
      refine List.mem_map.mpr ⟨0, List.mem_range.mpr hpos, ?_⟩
      rw [Nat.add_zero, Nat.mod_eq_of_lt (by omega), Nat.sub_add_cancel hp]
    cases hq : ((List.range n).map fun i => (p - 1 + i) % n + 1).find? fun q => decide (q = p) with
    | none => exact absurd (decide_eq_true rfl) (List.find?_eq_none.mp hq p hfirst)
    | some q =>
      have heq := List.find?_some hq
      rw [of_decide_eq_true heq]

lemma scanned_iff {i : ℕ} : w.scanned i ↔ 2 ≤ i ∧ i < maxPid ∧ i ≠ w.caller ∧
    ∃ t, w.task i = some t ∧ t.zombie = false ∧ t.group = i := by
  simp only [scanned, decide_eq_true_eq, Option.any_eq_true, pidGetTask_eq_some]
  refine and_congr_right fun _ => and_congr_right fun _ => and_congr_right fun _ => ?_
  constructor
  · rintro ⟨t, ⟨ht, hzombie⟩, hgroup⟩
    exact ⟨t, ht, hzombie, hgroup⟩
  · rintro ⟨t, ht, hzombie, hgroup⟩
    exact ⟨t, ⟨ht, hzombie⟩, hgroup⟩

def Reached (w : KillTable) (pid : ℤ) (tgid a : ℕ) : Prop :=
  if w.resolve pid = -1 then w.scanned a = true
  else if w.resolve pid < 0 then a ∈ w.pgroup (-w.resolve pid).toNat
  else a = (w.resolve pid).toNat ∧ ∃ t, w.task a = some t ∧ t.zombie = false ∧
    (tgid = 0 ∨ t.group = tgid)

structure Spec (w : KillTable) (pid : ℤ) (sig tgid : ℕ) (r : ℤ × KillState) : Prop where
  balanced : r.2.released = r.2.acquired ↔
    (w.resolve pid < -1 → w.noPid (-w.resolve pid).toNat = false)
  sent : 0 < sig → ∀ a, a ∈ r.2.sent ↔ w.Reached pid tgid a ∧ w.may a ∧ w.takes a
  success : r.2.accepted ≠ [] → r.1 = 0

lemma success_of_sound {r : ℤ × KillState} (h : KillState.Sound r) : r.2.accepted ≠ [] → r.1 = 0 :=
  fun hne => h.elim id fun hnone => absurd hnone.2 hne

variable {pid : ℤ} {sig tgid : ℕ}

lemma spec_each {as : List ℕ} (hpid : w.resolve pid < -1 → w.noPid (-w.resolve pid).toNat = false)
    (hmem : ∀ a, w.Reached pid tgid a ↔ a ∈ as) :
    w.Spec pid sig tgid ((w.killEach sig as killEperm ⟨1, 0, [], []⟩).1,
      (w.killEach sig as killEperm ⟨1, 0, [], []⟩).2.unlock) := by
  obtain ⟨hacquired, hreleased⟩ := w.killEach_locks sig as killEperm ⟨1, 0, [], []⟩
  refine ⟨iff_of_true ?_ hpid, fun hsig a => ?_, ?_⟩
  · exact (congrArg (· + 1) hreleased).trans hacquired.symm
  · refine (mem_sent_killEach hsig as _ _ a).trans ?_
    rw [hmem, or_iff_left List.not_mem_nil]
  · have hsound : KillState.Sound (killEperm, ⟨1, 0, [], []⟩) := Or.inr ⟨rfl, rfl⟩
    exact success_of_sound (sound_killEach sig as hsound)

lemma spec_everything (hpid : w.resolve pid = -1) :
    w.Spec pid sig tgid ((w.killEverything sig ⟨1, 0, [], []⟩).1,
      (w.killEverything sig ⟨1, 0, [], []⟩).2.unlock) := by
  refine spec_each (fun h => absurd h (by omega)) fun a => ?_
  rw [Reached, if_pos hpid, List.mem_filter, List.mem_range]
  exact ⟨fun hscan => ⟨(scanned_iff.mp hscan).2.1, hscan⟩, fun h => h.2⟩

lemma spec_group (hne : w.resolve pid ≠ -1) (hpid : w.resolve pid < 0) :
    w.Spec pid sig tgid ((w.killGroupOf (-w.resolve pid).toNat sig ⟨1, 0, [], []⟩).1,
      (w.killGroupOf (-w.resolve pid).toNat sig ⟨1, 0, [], []⟩).2.unlock) := by
  have hreached : ∀ a, w.Reached pid tgid a ↔ a ∈ w.pgroup (-w.resolve pid).toNat := by
    intro a
    rw [Reached, if_neg hne, if_pos hpid]
  unfold killGroupOf
  by_cases hno : w.noPid (-w.resolve pid).toNat
  · rw [if_pos hno]
    have hempty : w.pgroup (-w.resolve pid).toNat = [] := by
      simp only [PidTable.noPid, PidTable.pidEmpty, decide_eq_true_eq] at hno
      rcases hno with hlarge | hempty
      · exact (w.unused _ (Or.inr hlarge)).2
      · exact hempty.2.2
    refine ⟨iff_of_false (by decide) fun h => ?_, fun _ a => ?_, fun h => absurd rfl h⟩
    · rw [h (by omega)] at hno
      exact Bool.false_ne_true hno
    · rw [hreached, hempty]
      exact iff_of_false List.not_mem_nil fun h => List.not_mem_nil h.1
  · rw [if_neg hno]
    exact spec_each (fun _ => Bool.eq_false_iff.mpr hno) hreached

lemma spec_task (hpid : 0 ≤ w.resolve pid) :
    w.Spec pid sig tgid (match w.pidGetTask (w.resolve pid).toNat with
      | none => (killEsrch, KillState.unlock ⟨1, 0, [], []⟩)
      | some t =>
        if tgid ≠ 0 ∧ t.group ≠ tgid then (killEsrch, KillState.unlock ⟨1, 0, [], []⟩)
        else
          let r := w.killTask (w.resolve pid).toNat sig ⟨1, 0, [], []⟩
          (r.1, r.2.unlock)) := by
  have hreached : ∀ a, w.Reached pid tgid a ↔ a = (w.resolve pid).toNat ∧
      ∃ t, w.task a = some t ∧ t.zombie = false ∧ (tgid = 0 ∨ t.group = tgid) := by
    intro a
    rw [Reached, if_neg (by omega), if_neg (by omega)]
  have hnone : (∀ t, w.pidGetTask (w.resolve pid).toNat = some t → tgid ≠ 0 ∧ t.group ≠ tgid) →
      w.Spec pid sig tgid (killEsrch, KillState.unlock ⟨1, 0, [], []⟩) := by
    intro hall
    refine ⟨iff_of_true rfl fun h => absurd h (by omega), fun _ a => ?_, fun h => absurd rfl h⟩
    rw [hreached]
    refine iff_of_false List.not_mem_nil ?_
    rintro ⟨⟨rfl, t, ht, hzombie, htgid⟩, -⟩
    have hother := hall t (pidGetTask_eq_some.mpr ⟨ht, hzombie⟩)
    exact htgid.elim hother.1 hother.2
  cases hget : w.pidGetTask (w.resolve pid).toNat with
  | none => exact hnone fun t ht => absurd (hget.symm.trans ht) (Option.some_ne_none t).symm
  | some t =>
    by_cases hother : tgid ≠ 0 ∧ t.group ≠ tgid
    · simp only [if_pos hother]
      refine hnone fun t' ht' => ?_
      rw [← Option.some_inj.mp (hget.symm.trans ht')]
      exact hother
    · simp only [if_neg hother]
      obtain ⟨ht, hzombie⟩ := pidGetTask_eq_some.mp hget
      -- the call does what a loop over the one task does
      change w.Spec pid sig tgid ((w.killEach sig [(w.resolve pid).toNat] killEperm _).1,
        (w.killEach sig [(w.resolve pid).toNat] killEperm _).2.unlock)
      refine spec_each (fun h => absurd h (by omega)) fun a => ?_
      rw [hreached, List.mem_singleton]
      refine ⟨And.left, fun ha => ⟨ha, t, ha ▸ ht, hzombie, ?_⟩⟩
      by_contra hno
      exact hother (not_or.mp hno)

lemma spec_doKill (hsig : sig ≤ maxSig) (pid : ℤ) (tgid : ℕ) :
    w.Spec pid sig tgid (w.doKill pid sig tgid ⟨0, 0, [], []⟩) := by
  have hresolve : (if pid = 0 then -(w.callerPgid : ℤ) else pid) = w.resolve pid := rfl
  unfold doKill
  rw [if_neg (Nat.not_lt.mpr hsig), hresolve]
  by_cases hall : w.resolve pid = -1
  · simp only [if_pos hall]
    exact spec_everything hall
  · simp only [if_neg hall]
    by_cases hneg : w.resolve pid < 0
    · simp only [if_pos hneg]
      exact spec_group hall hneg
    · simp only [if_neg hneg]
      exact spec_task (not_lt.mp hneg)

/-! ### Which tasks get the signal -/

lemma takes_live {a : ℕ} (htakes : w.takes a) (hleader : ∀ t, w.task a = some t → t.group = a) :
    w.Live a := by
  obtain ⟨t, ht, hzombie, hexiting⟩ := takes_iff.mp htakes
  exact ⟨a, t, ht, by simp [hzombie], by simp [hexiting], hleader t ht⟩

lemma group_of_mem {g a : ℕ} (ha : a ∈ w.pgroup g) (t : ThreadRec) (ht : w.task a = some t) :
    t.group = a := by
  obtain ⟨t', ht', hgroup⟩ := w.members g a ha
  rw [ht', Option.some_inj] at ht
  exact ht ▸ hgroup

lemma Live.leader {a : ℕ} (ha : w.Live a) : ∃ t, w.task a = some t ∧ t.group = a := by
  obtain ⟨b, t, hb, -, -, rfl⟩ := ha
  exact w.leader b t hb

lemma callerLeader_eq {t : ThreadRec} (ht : w.task w.caller = some t) :
    w.callerLeader = t.group := by
  simp [callerLeader, ht]

lemma reaches_iff {reached target : ℕ → Prop} (hto : ∀ a, reached a → w.takes a → target a)
    (hall : ∀ a, target a → w.may a → w.takes a → reached a) :
    (∀ a, reached a ∧ w.may a ∧ w.takes a ↔ target a ∧ w.may a) ↔
      ∀ a, target a → w.may a → w.takes a := by
  constructor
  · intro h a htarget hmay
    exact ((h a).mpr ⟨htarget, hmay⟩).2.2
  · intro h a
    constructor
    · rintro ⟨hreached, hmay, htakes⟩
      exact ⟨hto a hreached htakes, hmay⟩
    · rintro ⟨htarget, hmay⟩
      have htakes := h a htarget hmay
      exact ⟨hall a htarget hmay htakes, hmay, htakes⟩

def Aims (w : KillTable) (pid : ℤ) (tgid : ℕ) : Prop :=
  ∀ a, w.Reached pid tgid a ∧ w.may a ∧ w.takes a ↔ w.Target pid tgid a ∧ w.may a

lemma aims_group {g : ℕ} (hreached : ∀ a, w.Reached pid tgid a ↔ a ∈ w.pgroup g)
    (htarget : ∀ a, w.Target pid tgid a ↔ a ∈ w.pgroup g ∧ w.Live a) :
    w.Aims pid tgid ↔ ∀ a, w.Target pid tgid a → w.may a → w.takes a := by
  refine reaches_iff (fun a ha htakes => ?_) fun a ha _ _ => ?_
  · have hmem := (hreached a).mp ha
    exact (htarget a).mpr ⟨hmem, takes_live htakes (group_of_mem hmem)⟩
  · exact (hreached a).mpr ((htarget a).mp ha).1

lemma aims_task (hpid : 0 < pid) :
    w.Aims pid tgid ↔ ∀ a, w.Target pid tgid a → w.may a → w.takes a := by
  have hresolve : w.resolve pid = pid := if_neg (by omega)
  have hreached : ∀ a, w.Reached pid tgid a ↔ a = pid.toNat ∧
      ∃ t, w.task a = some t ∧ t.zombie = false ∧ (tgid = 0 ∨ t.group = tgid) := by
    intro a
    rw [Reached, hresolve, if_neg (by omega), if_neg (by omega)]
  have htarget : ∀ a, w.Target pid tgid a ↔ a = pid.toNat ∧ ∃ t, w.task a = some t ∧ ¬ t.zombie ∧
      if tgid = 0 then ¬ t.exiting ∨ w.Live a else t.group = tgid ∧ ¬ t.exiting := by
    intro a
    rw [Target, if_neg (by omega), if_neg (by omega), if_neg (by omega)]
  refine reaches_iff (fun a ha htakes => ?_) fun a ha _ _ => ?_
  · obtain ⟨heq, t, ht, hzombie, htgid⟩ := (hreached a).mp ha
    obtain ⟨t', ht', -, hexiting⟩ := takes_iff.mp htakes
    rw [ht, Option.some_inj] at ht'
    refine (htarget a).mpr ⟨heq, t, ht, by simp [hzombie], ?_⟩
    rw [← ht'] at hexiting
    split_ifs with hzero
    · exact Or.inl (by simp [hexiting])
    · exact ⟨htgid.resolve_left hzero, by simp [hexiting]⟩
  · obtain ⟨heq, t, ht, hzombie, hkind⟩ := (htarget a).mp ha
    refine (hreached a).mpr ⟨heq, t, ht, Bool.eq_false_iff.mpr hzombie, ?_⟩
    split_ifs at hkind with hzero
    · exact Or.inl hzero
    · exact Or.inr hkind.1

lemma aims_everyone (hpid : pid = -1) : w.Aims pid tgid ↔
    (∀ a, w.Target pid tgid a → w.may a → w.takes a) ∧
      (w.Target pid tgid maxPid → ¬ w.may maxPid) ∧
      (w.caller ≠ w.callerLeader → ¬ (2 ≤ w.callerLeader ∧ w.callerLeader < maxPid ∧
        w.may w.callerLeader ∧ w.takes w.callerLeader)) := by
  obtain ⟨tc, htc⟩ := w.running
  have hleader := callerLeader_eq htc
  have hresolve : w.resolve pid = -1 := by rw [resolve, if_neg (by omega), hpid]
  have hreached : ∀ a, w.Reached pid tgid a ↔ w.scanned a = true := by
    intro a
    rw [Reached, if_pos hresolve]
  have htarget : ∀ a, w.Target pid tgid a ↔
      (0 < a ∧ a ≤ maxPid) ∧ w.Live a ∧ a ≠ 1 ∧ a ≠ w.callerLeader := by
    intro a
    rw [Target, if_pos hpid, allocatable_iff]
  constructor
  · intro h
    refine ⟨fun a ha hmay => ((h a).mpr ⟨ha, hmay⟩).2.2, fun hlast hmay => ?_, ?_⟩
    · have hscan := (hreached maxPid).mp ((h maxPid).mpr ⟨hlast, hmay⟩).1
      exact lt_irrefl _ (scanned_iff.mp hscan).2.1
    · rintro hne ⟨hlow, hhigh, hmay, htakes⟩
      obtain ⟨t, ht, hgroup⟩ := w.leader _ tc htc
      rw [← hleader] at ht hgroup
      obtain ⟨t', ht', hzombie, -⟩ := takes_iff.mp htakes
      rw [ht, Option.some_inj] at ht'
      have hscan : w.scanned w.callerLeader :=
        scanned_iff.mpr ⟨hlow, hhigh, hne.symm, t, ht, ht' ▸ hzombie, hgroup⟩
      have hown := ((h _).mp ⟨(hreached _).mpr hscan, hmay, htakes⟩).1
      exact ((htarget _).mp hown).2.2.2 rfl
  · rintro ⟨hleads, hlast, hown⟩ a
    constructor
    · rintro ⟨ha, hmay, htakes⟩
      obtain ⟨hlow, hhigh, hcaller, t, ht, hzombie, hgroup⟩ := scanned_iff.mp ((hreached a).mp ha)
      refine ⟨(htarget a).mpr ⟨⟨by omega, hhigh.le⟩, ?_, by omega, ?_⟩, hmay⟩
      · refine takes_live htakes fun t' ht' => ?_
        rw [ht, Option.some_inj] at ht'
        exact ht' ▸ hgroup
      · rintro rfl
        exact hown hcaller.symm ⟨hlow, hhigh, hmay, htakes⟩
    · rintro ⟨ha, hmay⟩
      have htakes := hleads a ha hmay
      obtain ⟨⟨hpos, hle⟩, hlive, hinit, hother⟩ := (htarget a).mp ha
      obtain ⟨t, ht, hgroup⟩ := hlive.leader
      obtain ⟨t', ht', hzombie, -⟩ := takes_iff.mp htakes
      rw [ht, Option.some_inj] at ht'
      refine ⟨(hreached a).mpr (scanned_iff.mpr ⟨by omega, ?_, ?_, t, ht, ht' ▸ hzombie, hgroup⟩),
        hmay, htakes⟩
      · refine lt_of_le_of_ne hle ?_
        rintro rfl
        exact hlast ha hmay
      · rintro rfl
        rw [htc, Option.some_inj] at ht
        exact hother (hgroup.symm.trans (ht ▸ hleader.symm))

lemma aims_first (hpid : pid = 0) (hpgid : w.callerPgid = 1) : w.Aims pid tgid ↔
    (∀ a, w.Target pid tgid a → w.may a → w.takes a) ∧
      ∀ a, w.may a → w.takes a → (a ∈ w.pgroup 1 ↔ w.scanned a) := by
  have hresolve : w.resolve pid = -1 := by rw [resolve, if_pos hpid, hpgid, Nat.cast_one]
  have hreached : ∀ a, w.Reached pid tgid a ↔ w.scanned a = true := by
    intro a
    rw [Reached, if_pos hresolve]
  have htarget : ∀ a, w.Target pid tgid a ↔ a ∈ w.pgroup 1 ∧ w.Live a := by
    intro a
    rw [Target, if_neg (by omega), if_neg (by omega), if_pos hpid, hpgid]
  constructor
  · refine fun h => ⟨fun a ha hmay => ((h a).mpr ⟨ha, hmay⟩).2.2, fun a hmay htakes => ?_⟩
    constructor
    · intro hmem
      have hlive := takes_live htakes (group_of_mem hmem)
      exact (hreached a).mp ((h a).mpr ⟨(htarget a).mpr ⟨hmem, hlive⟩, hmay⟩).1
    · intro hscan
      exact ((htarget a).mp ((h a).mp ⟨(hreached a).mpr hscan, hmay, htakes⟩).1).1
  · rintro ⟨hleads, hfirst⟩ a
    constructor
    · rintro ⟨ha, hmay, htakes⟩
      have hmem := (hfirst a hmay htakes).mpr ((hreached a).mp ha)
      exact ⟨(htarget a).mpr ⟨hmem, takes_live htakes (group_of_mem hmem)⟩, hmay⟩
    · rintro ⟨ha, hmay⟩
      have htakes := hleads a ha hmay
      exact ⟨(hreached a).mpr ((hfirst a hmay htakes).mp ((htarget a).mp ha).1), hmay, htakes⟩

lemma aims_iff (pid : ℤ) (tgid : ℕ) : w.Aims pid tgid ↔
    (∀ a, w.Target pid tgid a → w.may a → w.takes a) ∧
      (pid = -1 → w.Target pid tgid maxPid → ¬ w.may maxPid) ∧
      (pid = -1 → w.caller ≠ w.callerLeader → ¬ (2 ≤ w.callerLeader ∧ w.callerLeader < maxPid ∧
        w.may w.callerLeader ∧ w.takes w.callerLeader)) ∧
      (pid = 0 → w.callerPgid = 1 → ∀ a, w.may a → w.takes a → (a ∈ w.pgroup 1 ↔ w.scanned a)) := by
  by_cases hall : pid = -1
  · rw [aims_everyone hall]
    simp only [hall, true_imp_iff, neg_eq_zero, one_ne_zero, false_imp_iff, and_true]
  by_cases hfirst : pid = 0 ∧ w.callerPgid = 1
  · rw [aims_first hfirst.1 hfirst.2]
    refine and_congr_right fun _ => ⟨fun h => ⟨fun h' => absurd h' hall, fun h' => absurd h' hall,
      fun _ _ => h⟩, fun h => h.2.2 hfirst.1 hfirst.2⟩
  have hrest : w.Aims pid tgid ↔ ∀ a, w.Target pid tgid a → w.may a → w.takes a := by
    rcases lt_trichotomy pid 0 with hneg | hzero | hpos
    · have hresolve : w.resolve pid = pid := if_neg (by omega)
      refine aims_group (g := (-pid).toNat) (fun a => ?_) fun a => ?_
      · rw [Reached, hresolve, if_neg hall, if_pos hneg]
      · rw [Target, if_neg hall, if_pos hneg]
    · have hresolve : w.resolve pid = -w.callerPgid := if_pos hzero
      by_cases hnone : w.callerPgid = 0
      · have htarget : ∀ a, ¬ w.Target pid tgid a := by
          intro a ha
          have hempty := (w.unused 0 (Or.inl rfl)).2
          rw [Target, if_neg hall, if_neg (by omega), if_pos hzero, hnone, hempty] at ha
          exact List.not_mem_nil ha.1
        have hreached : ∀ a, ¬ w.Reached pid tgid a := by
          intro a ha
          rw [Reached, hresolve, hnone, if_neg (by omega), if_neg (by omega)] at ha
          obtain ⟨rfl, t, ht, -⟩ := ha
          exact absurd (task_pos ht).1 (by simp)
        refine reaches_iff (fun a ha => absurd ha (hreached a)) fun a ha => absurd ha (htarget a)
      · refine aims_group (g := w.callerPgid) (fun a => ?_) fun a => ?_
        · rw [Reached, hresolve, if_neg (by omega), if_pos (by omega), neg_neg, Int.toNat_natCast]
        · rw [Target, if_neg hall, if_neg (by omega), if_pos hzero]
    · exact aims_task hpos
  rw [hrest]
  refine (and_iff_left ⟨fun h => absurd h hall, fun h => absurd h hall, fun hzero hpgid => ?_⟩).symm
  exact absurd ⟨hzero, hpgid⟩ hfirst

end KillTable

open KillTable in
/-- A kill is right just if it meets the condition. -/
theorem kills_iff (w : KillTable) (pid : ℤ) (sig tgid : ℕ) :
    w.Kills pid sig tgid ↔ w.KillFits pid sig tgid := by
  by_cases hsig : sig ≤ maxSig
  · obtain ⟨hbalanced, hsent, hsuccess⟩ := spec_doKill (w := w) hsig pid tgid
    have hreaches : 0 < sig → ((∀ a, a ∈ (w.doKill pid sig tgid ⟨0, 0, [], []⟩).2.sent ↔
        w.Target pid tgid a ∧ w.may a) ↔ w.Aims pid tgid) := by
      intro hpos
      exact forall_congr' fun a => by rw [hsent hpos]
    constructor
    · rintro ⟨hb, hr, -⟩
      have haims : 0 < sig → w.Aims pid tgid := fun hpos => (hreaches hpos).mp (hr hpos hsig)
      refine ⟨fun _ => hbalanced.mp hb, fun hpos _ => ?_, fun hpos _ => ?_, fun hpos _ => ?_,
        fun hpos _ => ?_⟩
      · exact ((aims_iff pid tgid).mp (haims hpos)).1
      · exact ((aims_iff pid tgid).mp (haims hpos)).2.1
      · exact ((aims_iff pid tgid).mp (haims hpos)).2.2.1
      · exact ((aims_iff pid tgid).mp (haims hpos)).2.2.2
    · rintro ⟨hfound, hleads, hlast, hown, hfirst⟩
      refine ⟨hbalanced.mpr (hfound hsig), fun hpos _ => ?_, hsuccess⟩
      exact (hreaches hpos).mpr ((aims_iff pid tgid).mpr
        ⟨hleads hpos hsig, hlast hpos hsig, hown hpos hsig, hfirst hpos hsig⟩)
  · have hinvalid : w.doKill pid sig tgid ⟨0, 0, [], []⟩ = (killEinval, ⟨0, 0, [], []⟩) :=
      if_pos (Nat.lt_of_not_le hsig)
    refine iff_of_true ⟨?_, fun _ h => absurd h hsig, fun h => ?_⟩
      ⟨fun h => absurd h hsig, fun _ h => absurd h hsig, fun _ h => absurd h hsig,
        fun _ h => absurd h hsig, fun _ h => absurd h hsig⟩
    · rw [hinvalid]
    · rw [hinvalid] at h
      exact absurd rfl h

/-- The first process and one more, each in a group of its own; the second one is at `p`. -/
def twoProcesses (p : ℕ) (hp : 2 ≤ p ∧ p ≤ maxPid) : KillTable where
  task := fun q => if q = 1 then some ⟨1, none, false, false⟩
    else if q = p then some ⟨p, some 1, false, false⟩ else none
  group := fun q => if q = 1 then some ⟨1, 1, [1]⟩
    else if q = p then some ⟨p, p, [p]⟩ else none
  session := fun q => if q = 1 then [1] else if q = p then [p] else []
  pgroup := fun q => if q = 1 then [1] else if q = p then [p] else []
  ids := fun _ => ⟨0, 0, 0⟩
  caller := 1
  unused := by
    intro q hq
    have hlarge : 1 < maxPid := by decide
    rw [if_neg (by omega), if_neg (by omega), if_neg (by omega), if_neg (by omega)]
    exact ⟨rfl, rfl⟩
  leader := by
    intro q t ht
    split_ifs at ht with h h'
    · obtain rfl := Option.some_inj.mp ht
      exact ⟨_, if_pos rfl, rfl⟩
    · obtain rfl := Option.some_inj.mp ht
      refine ⟨_, ?_, rfl⟩
      rw [if_neg (show p ≠ 1 by omega), if_pos rfl]
  members := by
    intro g q hq
    split_ifs at hq with h h'
    · obtain rfl := List.mem_singleton.mp hq
      exact ⟨⟨1, none, false, false⟩, if_pos rfl, rfl⟩
    · obtain rfl := List.mem_singleton.mp hq
      refine ⟨⟨q, some 1, false, false⟩, ?_, rfl⟩
      rw [if_neg (show q ≠ 1 by omega), if_pos rfl]
    · exact absurd hq List.not_mem_nil
  running := ⟨_, if_pos rfl⟩

/-- A group that does not exist has the lock released twice, and a process with the last pid is
passed over. -/
theorem kills_differs :
    ¬ (twoProcesses 2 (by decide)).Kills (-3) 15 0 ∧
      ¬ (twoProcesses maxPid (by decide)).Kills (-1) 15 0 := by
  refine ⟨fun h => ?_, fun h => ?_⟩
  · have hbalanced := h.balanced
    revert hbalanced
    decide
  · have hall : (twoProcesses maxPid (by decide)).Target (-1) 0 maxPid := by
      rw [KillTable.Target, if_pos rfl]
      refine ⟨KillTable.allocatable_iff.mpr (by decide), ?_, by decide, by decide⟩
      exact ⟨maxPid, ⟨maxPid, some 1, false, false⟩, by decide, by decide, by decide, rfl⟩
    have hsent := (h.reaches (by decide) (by decide) maxPid).mpr ⟨hall, by decide⟩
    have hspec : (twoProcesses maxPid (by decide)).Spec (-1) 15 0 _ :=
      KillTable.spec_doKill (by decide) (-1) 0
    have hreached := ((hspec.sent (by decide) maxPid).mp hsent).1
    rw [KillTable.Reached, if_pos (by decide)] at hreached
    exact lt_irrefl _ (KillTable.scanned_iff.mp hreached).2.1

end ShellBox
