import ShellBox.Logic.Buckets
import ShellBox.Logic.Loop

/-!
# Process groups and sessions

Each pid has a list of the thread groups in the process group of that number and one of those in
the session. A thread group carries the two numbers and is linked on the two lists: `fork` copies
the numbers and links the new group behind the old one, `setpgid` and `setsid` change a number
and relink, and the group is unlinked when its leader is reaped. A signal for a process group goes
over the list.
-/

namespace ShellBox

open Function

/-- What the process lists need of `struct task`. A thread group is named by its leader's pid. -/
structure ThreadRec where
  group : ℕ
  parent : Option ℕ
  exiting : Bool
  zombie : Bool
  deriving DecidableEq

/-- `struct tgroup` -/
structure TgroupRec where
  sid : ℕ
  pgid : ℕ
  threads : List ℕ
  deriving DecidableEq

@[ext] structure PidTable where
  task : ℕ → Option ThreadRec
  group : ℕ → Option TgroupRec
  session : ℕ → List ℕ
  pgroup : ℕ → List ℕ

def maxPid : ℕ := 2 ^ 15

namespace PidTable

def pidEmpty (s : PidTable) (p : ℕ) : Bool :=
  s.task p = none ∧ s.session p = [] ∧ s.pgroup p = []

/-- `pid_get(p) == NULL` -/
def noPid (s : PidTable) (p : ℕ) : Bool := maxPid < p ∨ s.pidEmpty p

def runs (s : PidTable) (p : ℕ) : Bool := (s.task p).any fun t => ¬ t.exiting

/-- A pid that `task_create_` can come to. -/
def freePid (s : PidTable) (p : ℕ) : Bool := 0 < p ∧ p ≤ maxPid ∧ s.pidEmpty p

/-- `clone` without `CLONE_THREAD`: `task_create_` and `tgroup_copy`. -/
def fork (s : PidTable) (current child : ℕ) : PidTable :=
  match s.task current with
  | none => s
  | some t =>
    match s.group t.group with
    | none => s
    | some g =>
      { task := update s.task child (some ⟨child, some current, false, false⟩)
        group := update s.group child (some { g with threads := [child] })
        session := fun p => insertBehind t.group child (s.session p)
        pgroup := fun p => insertBehind t.group child (s.pgroup p) }

/-- `clone` with `CLONE_THREAD`. -/
def newThread (s : PidTable) (current child : ℕ) : PidTable :=
  match s.task current with
  | none => s
  | some t =>
    match s.group t.group with
    | none => s
    | some g =>
      { s with
        task := update s.task child (some ⟨t.group, some current, false, false⟩)
        group := update s.group t.group (some { g with threads := child :: g.threads }) }

/-- `setpgid` up to its checks: the thread group and the number it gets. The task is found by `id`,
and a group that is joined has to be of the same session. -/
def setpgidTarget (s : PidTable) (current id pgid : ℕ) : Except ℤ (ℕ × ℕ × ℕ) :=
  let id := if id = 0 then current else id
  let pgid := if pgid = 0 then id else pgid
  if s.noPid id then .error (-3)
  else
    match s.task id with
    | none => .error (-3)
    | some t =>
      match s.group t.group with
      | none => .error (-3)
      | some g =>
        let other := (s.pgroup pgid).head?.bind s.group
        if id ≠ pgid ∧ (s.noPid pgid ∨ other = none) then .error (-1)
        else if id ≠ pgid ∧ other.map TgroupRec.sid ≠ some g.sid then .error (-1)
        else if id ≠ current ∧ t.parent ≠ some current then .error (-3)
        else if g.sid = t.group then .error (-1)
        else .ok (id, t.group, pgid)

/-- `sys_setpgid`. The group is linked at `id`. -/
def setpgid (s : PidTable) (current id pgid : ℕ) : ℤ × PidTable :=
  match s.setpgidTarget current id pgid with
  | .error e => (e, s)
  | .ok (id, group, pgid) =>
    match s.group group with
    | none => (0, s)
    | some g =>
      if g.pgid = pgid then (0, s)
      else
        let pgroup := fun p => (s.pgroup p).erase group
        (0, { s with
          group := update s.group group (some { g with pgid := pgid })
          pgroup := update pgroup id (group :: pgroup id) })

/-- `task_setsid`. The group is linked at the pid of the thread that calls. -/
def setsid (s : PidTable) (current : ℕ) : ℤ × PidTable :=
  match s.task current with
  | none => (-1, s)
  | some t =>
    match s.group t.group with
    | none => (-1, s)
    | some g =>
      if g.pgid = t.group ∨ g.sid = t.group then (-1, s)
      else
        let session := fun p => (s.session p).erase t.group
        let pgroup := fun p => (s.pgroup p).erase t.group
        (t.group, { s with
          group := update s.group t.group (some { g with sid := t.group, pgid := t.group })
          session := update session current (t.group :: session current)
          pgroup := update pgroup current (t.group :: pgroup current) })

/-- The end of `reap_if_zombie`, for a leader: the group leaves its session and process group and
the leader its pid. -/
def destroyGroup (s : PidTable) (leader : ℕ) : PidTable where
  task := update s.task leader none
  group := update s.group leader none
  session := fun p => (s.session p).erase leader
  pgroup := fun p => (s.pgroup p).erase leader

/-- `find_new_parent`, once the thread is marked as exiting. -/
def findNewParent (s : PidTable) (g : TgroupRec) : Option ℕ :=
  match g.threads.find? s.runs with
  | some t => some t
  | none => if (s.task 1).any fun t => ¬ t.zombie then some 1 else none

def markExiting (s : PidTable) (p : ℕ) : PidTable :=
  match s.task p with
  | none => s
  | some t => { s with task := update s.task p (some { t with exiting := true }) }

def reparent (s : PidTable) (p : ℕ) (parent : Option ℕ) : PidTable :=
  { s with task := fun q => (s.task q).map fun t =>
      if t.parent = some p then { t with parent := parent } else t }

/-- `exit_tgroup` -/
def leaveGroup (s : PidTable) (group p : ℕ) : PidTable :=
  match s.group group with
  | none => s
  | some g =>
    { s with group := update s.group group (some { g with threads := g.threads.erase p }) }

def setZombie (s : PidTable) (p : ℕ) : PidTable :=
  match s.task p with
  | none => s
  | some t => { s with task := update s.task p (some { t with zombie := true }) }

def groupDead (s : PidTable) (leader : ℕ) (autoReap : Bool) : PidTable :=
  if (s.task leader).any fun t => t.zombie then s
  else if autoReap then s.destroyGroup leader
  else s.setZombie leader

/-- `do_exit`. When the first process exits the machine halts. -/
def exit (s : PidTable) (current : ℕ) (autoReap : Bool) : PidTable :=
  match s.task current with
  | none => s
  | some t =>
    match s.group t.group with
    | none => s
    | some g =>
      let s := s.markExiting current
      let s := (s.reparent current (s.findNewParent g)).leaveGroup t.group current
      let s := if (g.threads.erase current).isEmpty then s.groupDead t.group autoReap else s
      if current = t.group then s else { s with task := update s.task current none }

/-- `reap_if_zombie` -/
def reap (s : PidTable) (p : ℕ) : PidTable :=
  if (s.task p).any fun t => t.zombie ∧ t.group = p then s.destroyGroup p else s

/-- The thread groups whose leaders `kill_group` sends the signal to, and that can take it: a task
that is exiting cannot. -/
def killGroup (s : PidTable) (pgid : ℕ) : List ℕ :=
  if s.noPid pgid then []
  else (s.pgroup pgid).filter fun g => (s.task g).any fun t => ¬ t.zombie ∧ ¬ t.exiting

end PidTable

inductive GroupEvent
  | fork (current child : ℕ)
  | newThread (current child : ℕ)
  | setpgid (current id pgid : ℕ)
  | setsid (current : ℕ)
  | exit (current : ℕ) (autoReap : Bool)
  | reap (p : ℕ)

def groupStep (s : PidTable) : GroupEvent → PidTable
  | .fork current child => if s.runs current ∧ s.freePid child then s.fork current child else s
  | .newThread current child =>
    if s.runs current ∧ s.freePid child then s.newThread current child else s
  | .setpgid current id pgid => if s.runs current then (s.setpgid current id pgid).2 else s
  | .setsid current => if s.runs current then (s.setsid current).2 else s
  | .exit current autoReap =>
    if s.runs current ∧ (s.task current).any (fun t => (s.task t.group).any fun l => l.parent.isSome)
    then s.exit current autoReap else s
  | .reap p => s.reap p

/-- The first process, after `task_setsid`. -/
def initTable : PidTable where
  task := update (fun _ => none) 1 (some ⟨1, none, false, false⟩)
  group := update (fun _ => none) 1 (some ⟨1, 1, [1]⟩)
  session := update (fun _ => []) 1 [1]
  pgroup := update (fun _ => []) 1 [1]

/-! ### The lists -/

namespace PidTable

def pgidOf (s : PidTable) (g : ℕ) : Option ℕ := (s.group g).map TgroupRec.pgid

def sidOf (s : PidTable) (g : ℕ) : Option ℕ := (s.group g).map TgroupRec.sid

/-- Each thread group is on the lists of its two numbers and on no others. -/
structure Linked (s : PidTable) : Prop where
  pgroup : Buckets s.pgroup s.pgidOf
  session : Buckets s.session s.sidOf

/-- The threads of a group run, and the leader is among them or there are none. -/
structure Threads (s : PidTable) : Prop where
  mem : ∀ g r, s.group g = some r → ∀ p ∈ r.threads, ∃ parent,
    s.task p = some ⟨g, parent, false, false⟩
  nodup : ∀ g r, s.group g = some r → r.threads.Nodup
  leader : ∀ g r, s.group g = some r → (s.task g).map ThreadRec.group = some g ∧
    (r.threads ≠ [] → g ∈ r.threads)
  run : ∀ p t, s.task p = some t → t.exiting = false → ∃ r, s.group t.group = some r ∧ p ∈ r.threads

structure Inv (s : PidTable) : Prop where
  linked : s.Linked
  threads : s.Threads

lemma map_update {α β : Type*} (f : ℕ → Option α) (h : α → β) (k : ℕ) (v : Option α) :
    (fun g => (update f k v g).map h) = update (fun g => (f g).map h) k (v.map h) := by
  funext g
  by_cases hg : g = k
  · rw [hg, update_self, update_self]
  · rw [update_of_ne hg, update_of_ne hg]

lemma Linked.of_eq {s s' : PidTable} (h : s.Linked) (hg : ∀ g, s'.pgidOf g = s.pgidOf g)
    (hs : ∀ g, s'.sidOf g = s.sidOf g) (hp : s'.pgroup = s.pgroup) (hl : s'.session = s.session) :
    s'.Linked := by
  refine ⟨?_, ?_⟩
  · rw [hp, show s'.pgidOf = s.pgidOf from funext hg]
    exact h.pgroup
  · rw [hl, show s'.sidOf = s.sidOf from funext hs]
    exact h.session

variable {s : PidTable} {current child p : ℕ} {t : ThreadRec} {g : TgroupRec}

lemma Inv.group_of_runs (h : s.Inv) (hr : s.runs p = true) :
    ∃ t g, s.task p = some t ∧ t.exiting = false ∧ s.group t.group = some g ∧ p ∈ g.threads := by
  unfold runs at hr
  cases ht : s.task p with
  | none => simp [ht] at hr
  | some t =>
    have hexit : t.exiting = false := by simpa [ht] using hr
    obtain ⟨g, hg, hmem⟩ := h.threads.run p t ht hexit
    exact ⟨t, g, rfl, hexit, hg, hmem⟩

lemma Inv.group_none (h : s.Inv) (hp : s.task p = none) : s.group p = none := by
  by_contra hne
  obtain ⟨r, hr⟩ := Option.ne_none_iff_exists'.1 hne
  have hlead := (h.threads.leader p r hr).1
  simp [hp] at hlead

lemma inv_fork (h : s.Inv) (ht : s.task current = some t) (hg : s.group t.group = some g)
    (hchild : s.task child = none) : (s.fork current child).Inv := by
  have hfree : s.group child = none := h.group_none hchild
  have hne : t.group ≠ child := by
    rintro rfl
    simp [hfree] at hg
  unfold fork
  simp only [ht, hg]
  refine ⟨⟨?_, ?_⟩, ⟨?_, ?_, ?_, ?_⟩⟩
  · unfold pgidOf
    simp only [map_update]
    exact h.linked.pgroup.insertBehind (by simp [pgidOf, hg]) (by simp [pgidOf, hfree])
  · unfold sidOf
    simp only [map_update]
    exact h.linked.session.insertBehind (by simp [sidOf, hg]) (by simp [sidOf, hfree])
  · intro k r hk q hq
    simp only at hk ⊢
    by_cases hkc : k = child
    · rw [hkc, update_self] at hk
      obtain rfl := Option.some.inj hk
      obtain rfl := List.mem_singleton.1 hq
      rw [hkc, update_self]
      exact ⟨_, rfl⟩
    · rw [update_of_ne hkc] at hk
      obtain ⟨parent, hq'⟩ := h.threads.mem k r hk q hq
      rw [update_of_ne (by rintro rfl; simp [hchild] at hq')]
      exact ⟨parent, hq'⟩
  · intro k r hk
    simp only at hk
    by_cases hkc : k = child
    · rw [hkc, update_self] at hk
      obtain rfl := Option.some.inj hk
      exact List.nodup_singleton _
    · rw [update_of_ne hkc] at hk
      exact h.threads.nodup k r hk
  · intro k r hk
    simp only at hk ⊢
    by_cases hkc : k = child
    · rw [hkc, update_self] at hk ⊢
      obtain rfl := Option.some.inj hk
      exact ⟨rfl, fun _ => List.mem_singleton_self _⟩
    · rw [update_of_ne hkc] at hk ⊢
      exact h.threads.leader k r hk
  · intro q k hq hexit
    simp only at hq ⊢
    by_cases hqc : q = child
    · rw [hqc, update_self] at hq
      obtain rfl := Option.some.inj hq
      exact ⟨_, update_self _ _ _, by simp [hqc]⟩
    · rw [update_of_ne hqc] at hq
      obtain ⟨r, hr, hmem⟩ := h.threads.run q k hq hexit
      rw [update_of_ne (by rintro heq; rw [heq, hfree] at hr; cases hr)]
      exact ⟨r, hr, hmem⟩

lemma inv_newThread (h : s.Inv) (ht : s.task current = some t) (hg : s.group t.group = some g)
    (hmem : current ∈ g.threads) (hchild : s.task child = none) : (s.newThread current child).Inv := by
  have hfree : s.group child = none := h.group_none hchild
  unfold newThread
  simp only [ht, hg]
  refine ⟨h.linked.of_eq ?_ ?_ rfl rfl, ⟨?_, ?_, ?_, ?_⟩⟩
  · intro k
    by_cases hk : k = t.group <;> simp [pgidOf, hk, hg]
  · intro k
    by_cases hk : k = t.group <;> simp [sidOf, hk, hg]
  · intro k r hk q hq
    simp only at hk ⊢
    by_cases hqc : q = child
    · have hkg : k = t.group := by
        by_contra hkg
        rw [update_of_ne hkg] at hk
        obtain ⟨parent, hq'⟩ := h.threads.mem k r hk q hq
        rw [hqc, hchild] at hq'
        cases hq'
      rw [hqc, update_self, hkg]
      exact ⟨_, rfl⟩
    · rw [update_of_ne hqc]
      by_cases hkg : k = t.group
      · rw [hkg, update_self] at hk
        obtain rfl := Option.some.inj hk
        rw [hkg]
        exact h.threads.mem _ g hg q ((List.mem_cons.1 hq).resolve_left hqc)
      · rw [update_of_ne hkg] at hk
        exact h.threads.mem k r hk q hq
  · intro k r hk
    simp only at hk
    by_cases hkg : k = t.group
    · rw [hkg, update_self] at hk
      obtain rfl := Option.some.inj hk
      refine List.nodup_cons.2 ⟨fun hmem => ?_, h.threads.nodup _ g hg⟩
      obtain ⟨parent, hq⟩ := h.threads.mem _ g hg child hmem
      simp [hchild] at hq
    · rw [update_of_ne hkg] at hk
      exact h.threads.nodup k r hk
  · intro k r hk
    simp only at hk ⊢
    by_cases hkg : k = t.group
    · have hlead := h.threads.leader _ g hg
      have hlc : t.group ≠ child := by
        intro heq
        rw [heq, hfree] at hg
        cases hg
      rw [hkg, update_self] at hk
      obtain rfl := Option.some.inj hk
      rw [hkg, update_of_ne hlc]
      exact ⟨hlead.1, fun _ => List.mem_cons_of_mem _ (hlead.2 (List.ne_nil_of_mem hmem))⟩
    · rw [update_of_ne hkg] at hk
      have hlead := h.threads.leader k r hk
      rw [update_of_ne (by rintro rfl; simp [hfree] at hk)]
      exact hlead
  · intro q k hq hexit
    simp only at hq ⊢
    by_cases hqc : q = child
    · rw [hqc, update_self] at hq
      obtain rfl := Option.some.inj hq
      exact ⟨_, update_self _ _ _, by simp [hqc]⟩
    · rw [update_of_ne hqc] at hq
      obtain ⟨r, hr, hmem⟩ := h.threads.run q k hq hexit
      by_cases hkg : k.group = t.group
      · rw [hkg, hg] at hr
        obtain rfl := Option.some.inj hr
        rw [hkg]
        exact ⟨_, update_self _ _ _, List.mem_cons_of_mem _ hmem⟩
      · rw [update_of_ne hkg]
        exact ⟨r, hr, hmem⟩

lemma Threads.of_eq {s' : PidTable} (h : s.Threads) (ht : s'.task = s.task)
    (hg : ∀ k, (s'.group k).map TgroupRec.threads = (s.group k).map TgroupRec.threads) :
    s'.Threads := by
  have hold : ∀ k r', s'.group k = some r' → ∃ r, s.group k = some r ∧ r.threads = r'.threads := by
    intro k r' hk
    have hmap := hg k
    rw [hk, Option.map_some] at hmap
    obtain ⟨r, hr, heq⟩ := Option.map_eq_some_iff.1 hmap.symm
    exact ⟨r, hr, heq⟩
  refine ⟨?_, ?_, ?_, ?_⟩
  · intro k r' hk q hq
    obtain ⟨r, hr, heq⟩ := hold k r' hk
    rw [ht]
    exact h.mem k r hr q (heq ▸ hq)
  · intro k r' hk
    obtain ⟨r, hr, heq⟩ := hold k r' hk
    exact heq ▸ h.nodup k r hr
  · intro k r' hk
    obtain ⟨r, hr, heq⟩ := hold k r' hk
    rw [ht, ← heq]
    exact h.leader k r hr
  · intro q k hq hexit
    rw [ht] at hq
    obtain ⟨r, hr, hmem⟩ := h.run q k hq hexit
    have hmap := hg k.group
    rw [hr, Option.map_some] at hmap
    obtain ⟨r', hr', heq⟩ := Option.map_eq_some_iff.1 hmap
    exact ⟨r', hr', heq ▸ hmem⟩

lemma inv_setpgid (h : s.Inv) {id pgid : ℕ}
    (hown : ∀ p group n, s.setpgidTarget current id pgid = .ok (p, group, n) →
      s.pgidOf group = some n ∨ p = n) : (s.setpgid current id pgid).2.Inv := by
  unfold setpgid
  cases htarget : s.setpgidTarget current id pgid with
  | error e => exact h
  | ok r =>
    obtain ⟨p, group, n⟩ := r
    simp only
    cases hg : s.group group with
    | none => exact h
    | some g =>
      simp only
      split_ifs with hsame
      · exact h
      · have hpn : p = n := by
          refine (hown p group n htarget).resolve_left fun hpgid => hsame ?_
          simpa [pgidOf, hg] using hpgid
        refine ⟨⟨?_, ?_⟩, h.threads.of_eq rfl fun k => ?_⟩
        · unfold pgidOf
          simp only [map_update, Option.map_some, hpn]
          exact h.linked.pgroup.relink group n
        · have hsid : sidOf { s with group := update s.group group (some { g with pgid := n }) } =
              s.sidOf := by
            funext k
            by_cases hk : k = group <;> simp [sidOf, hk, hg]
          exact hsid ▸ h.linked.session
        · by_cases hk : k = group <;> simp [hk, hg]

lemma inv_setsid (h : s.Inv)
    (hlead : ∀ t g, s.task current = some t → s.group t.group = some g →
      ¬ (g.pgid = t.group ∨ g.sid = t.group) → current = t.group) :
    (s.setsid current).2.Inv := by
  unfold setsid
  cases ht : s.task current with
  | none => exact h
  | some t =>
    simp only
    cases hg : s.group t.group with
    | none => exact h
    | some g =>
      simp only
      split_ifs with hrefused
      · exact h
      · have hcur := hlead t g ht hg hrefused
        refine ⟨⟨?_, ?_⟩, h.threads.of_eq rfl fun k => ?_⟩
        · unfold pgidOf
          simp only [map_update, Option.map_some, hcur]
          exact h.linked.pgroup.relink t.group t.group
        · unfold sidOf
          simp only [map_update, Option.map_some, hcur]
          exact h.linked.session.relink t.group t.group
        · by_cases hk : k = t.group <;> simp [hk, hg]

lemma inv_destroyGroup (h : s.Inv) (hnone : ∀ r, s.group p = some r → r.threads = [])
    (hown : ∀ t, s.task p = some t → t.group = p) : (s.destroyGroup p).Inv := by
  unfold destroyGroup
  refine ⟨⟨?_, ?_⟩, ⟨?_, ?_, ?_, ?_⟩⟩
  · unfold pgidOf
    simp only [map_update, Option.map_none]
    exact h.linked.pgroup.remove p
  · unfold sidOf
    simp only [map_update, Option.map_none]
    exact h.linked.session.remove p
  · intro k r hk q hq
    simp only at hk ⊢
    by_cases hkp : k = p
    · simp [hkp] at hk
    · rw [update_of_ne hkp] at hk
      obtain ⟨parent, hq'⟩ := h.threads.mem k r hk q hq
      refine ⟨parent, ?_⟩
      rw [update_of_ne ?_]
      · exact hq'
      · rintro rfl
        exact hkp (hown _ hq')
  · intro k r hk
    simp only at hk
    by_cases hkp : k = p
    · simp [hkp] at hk
    · rw [update_of_ne hkp] at hk
      exact h.threads.nodup k r hk
  · intro k r hk
    simp only at hk ⊢
    by_cases hkp : k = p
    · simp [hkp] at hk
    · rw [update_of_ne hkp] at hk ⊢
      exact h.threads.leader k r hk
  · intro q k hq hexit
    simp only at hq ⊢
    by_cases hqp : q = p
    · simp [hqp] at hq
    · rw [update_of_ne hqp] at hq
      obtain ⟨r, hr, hmem⟩ := h.threads.run q k hq hexit
      by_cases hkp : k.group = p
      · rw [hkp] at hr
        simp [hnone r hr] at hmem
      · rw [update_of_ne hkp]
        exact ⟨r, hr, hmem⟩

lemma inv_reap (h : s.Inv) : (s.reap p).Inv := by
  unfold reap
  split_ifs with hz
  · cases ht : s.task p with
    | none => simp [ht] at hz
    | some t =>
      have hz' : t.zombie = true ∧ t.group = p := by simpa [ht] using hz
      refine inv_destroyGroup h (fun r hr => ?_) fun t' ht' => ?_
      · by_contra hne
        obtain ⟨parent, hp⟩ := h.threads.mem p r hr p ((h.threads.leader p r hr).2 hne)
        rw [ht] at hp
        rw [Option.some.inj hp] at hz'
        exact absurd hz'.1 (by simp)
      · rw [ht] at ht'
        rw [← Option.some.inj ht']
        exact hz'.2
  · exact h

lemma reparent_task (s : PidTable) (q : ℕ) (parent : Option ℕ) {k : ℕ} {t : ThreadRec}
    (h : (s.reparent q parent).task k = some t) :
    ∃ old, s.task k = some { t with parent := old } := by
  obtain ⟨t', ht', heq⟩ := Option.map_eq_some_iff.1 h
  refine ⟨t'.parent, ?_⟩
  rw [ht', ← heq]
  split_ifs <;> rfl

lemma task_reparent (s : PidTable) (q : ℕ) (parent : Option ℕ) {k : ℕ} {t : ThreadRec}
    (h : s.task k = some t) : ∃ new, (s.reparent q parent).task k = some { t with parent := new } := by
  unfold reparent
  simp only [h, Option.map_some]
  split_ifs
  · exact ⟨parent, rfl⟩
  · exact ⟨t.parent, rfl⟩

lemma inv_reparent (h : s.Inv) (q : ℕ) (parent : Option ℕ) : (s.reparent q parent).Inv := by
  refine ⟨h.linked.of_eq (fun _ => rfl) (fun _ => rfl) rfl rfl, ⟨?_, ?_, ?_, ?_⟩⟩
  · intro k r hk t ht
    obtain ⟨old, hold⟩ := h.threads.mem k r hk t ht
    obtain ⟨new, hnew⟩ := task_reparent s q parent hold
    exact ⟨new, hnew⟩
  · exact h.threads.nodup
  · intro k r hk
    obtain ⟨hgroup, hmem⟩ := h.threads.leader k r hk
    obtain ⟨t, ht, hgt⟩ := Option.map_eq_some_iff.1 hgroup
    obtain ⟨new, hnew⟩ := task_reparent s q parent ht
    refine ⟨?_, hmem⟩
    rw [hnew, Option.map_some]
    exact congrArg some hgt
  · intro k t ht hexit
    obtain ⟨old, hold⟩ := reparent_task s q parent ht
    have hrun := h.threads.run k _ hold
    exact hrun hexit

def dropThread (s : PidTable) (group p : ℕ) : PidTable :=
  { s.leaveGroup group p with task := update s.task p none }

def endGroup (s : PidTable) (p : ℕ) (t : ThreadRec) (zombie : Bool) : PidTable :=
  { s.leaveGroup p p with
    task := update s.task p (some { t with exiting := true, zombie := zombie }) }

lemma leaveGroup_numbers (s : PidTable) (group p k : ℕ) :
    (s.leaveGroup group p).pgidOf k = s.pgidOf k ∧ (s.leaveGroup group p).sidOf k = s.sidOf k := by
  unfold leaveGroup
  cases hg : s.group group with
  | none => exact ⟨rfl, rfl⟩
  | some g => by_cases hk : k = group <;> simp [pgidOf, sidOf, hk, hg]

lemma leaveGroup_lists (s : PidTable) (group p : ℕ) :
    (s.leaveGroup group p).pgroup = s.pgroup ∧ (s.leaveGroup group p).session = s.session := by
  unfold leaveGroup
  cases s.group group <;> exact ⟨rfl, rfl⟩

lemma leaveGroup_group (hg : s.group t.group = some g) (p : ℕ) :
    (s.leaveGroup t.group p).group =
      update s.group t.group (some { g with threads := g.threads.erase p }) := by
  unfold leaveGroup
  simp only [hg]

lemma inv_dropThread (h : s.Inv) (ht : s.task p = some t) (hg : s.group t.group = some g)
    (hp : p ≠ t.group) :
    (s.dropThread t.group p).Inv := by
  have hnum := leaveGroup_numbers s t.group p
  obtain ⟨hpg, hss⟩ := leaveGroup_lists s t.group p
  unfold dropThread
  refine ⟨h.linked.of_eq (fun k => (hnum k).1) (fun k => (hnum k).2) hpg hss, ⟨?_, ?_, ?_, ?_⟩⟩
  · intro k r hk q hq
    simp only [leaveGroup_group hg] at hk ⊢
    have hq' : q ≠ p ∧ ∃ r', s.group k = some r' ∧ q ∈ r'.threads := by
      by_cases hkg : k = t.group
      · rw [hkg, update_self] at hk
        obtain rfl := Option.some.inj hk
        have hnodup := h.threads.nodup _ g hg
        obtain ⟨hne, hmem⟩ := (hnodup.mem_erase_iff).1 hq
        exact ⟨hne, g, hkg ▸ hg, hmem⟩
      · rw [update_of_ne hkg] at hk
        refine ⟨?_, r, hk, hq⟩
        rintro rfl
        obtain ⟨parent, hq'⟩ := h.threads.mem k r hk q hq
        rw [ht] at hq'
        exact hkg (congrArg ThreadRec.group (Option.some.inj hq')).symm
    obtain ⟨hne, r', hr', hmem⟩ := hq'
    rw [update_of_ne hne]
    exact h.threads.mem k r' hr' q hmem
  · intro k r hk
    simp only [leaveGroup_group hg] at hk
    by_cases hkg : k = t.group
    · rw [hkg, update_self] at hk
      obtain rfl := Option.some.inj hk
      exact (h.threads.nodup _ g hg).erase p
    · rw [update_of_ne hkg] at hk
      exact h.threads.nodup k r hk
  · intro k r hk
    simp only [leaveGroup_group hg] at hk ⊢
    by_cases hkg : k = t.group
    · have hlead := h.threads.leader _ g hg
      rw [hkg, update_self] at hk
      obtain rfl := Option.some.inj hk
      rw [hkg, update_of_ne hp.symm]
      refine ⟨hlead.1, fun hne => ?_⟩
      have hne' : g.threads ≠ [] := by
        rintro hnil
        simp [hnil] at hne
      exact (List.mem_erase_of_ne hp.symm).2 (hlead.2 hne')
    · rw [update_of_ne hkg] at hk
      have hlead := h.threads.leader k r hk
      have hkp : k ≠ p := by
        rintro rfl
        rw [ht, Option.map_some] at hlead
        exact hp (Option.some.inj hlead.1).symm
      rw [update_of_ne hkp]
      exact hlead
  · intro q k hq hexit
    simp only [leaveGroup_group hg] at hq ⊢
    by_cases hqp : q = p
    · simp [hqp] at hq
    · rw [update_of_ne hqp] at hq
      obtain ⟨r, hr, hmem⟩ := h.threads.run q k hq hexit
      by_cases hkg : k.group = t.group
      · rw [hkg, hg] at hr
        obtain rfl := Option.some.inj hr
        rw [hkg]
        exact ⟨_, update_self _ _ _, (List.mem_erase_of_ne hqp).2 hmem⟩
      · rw [update_of_ne hkg]
        exact ⟨r, hr, hmem⟩

lemma inv_endGroup (h : s.Inv) (ht : s.task p = some t) (hp : t.group = p)
    (hg : s.group p = some g) (hlast : g.threads.erase p = []) (zombie : Bool) :
    (s.endGroup p t zombie).Inv := by
  have hnum := leaveGroup_numbers s p p
  obtain ⟨hpg, hss⟩ := leaveGroup_lists s p p
  have hgroup : (s.leaveGroup p p).group = update s.group p (some { g with threads := [] }) := by
    have heq := leaveGroup_group (s := s) (t := t) (g := g) (hp ▸ hg) p
    rwa [hp, hlast] at heq
  unfold endGroup
  refine ⟨h.linked.of_eq (fun k => (hnum k).1) (fun k => (hnum k).2) hpg hss, ⟨?_, ?_, ?_, ?_⟩⟩
  · intro k r hk q hq
    simp only [hgroup] at hk ⊢
    by_cases hkp : k = p
    · rw [hkp, update_self] at hk
      obtain rfl := Option.some.inj hk
      simp at hq
    · rw [update_of_ne hkp] at hk
      obtain ⟨parent, hq'⟩ := h.threads.mem k r hk q hq
      refine ⟨parent, ?_⟩
      rw [update_of_ne ?_]
      · exact hq'
      · rintro rfl
        rw [ht] at hq'
        exact hkp (by rw [← hp, Option.some.inj hq'])
  · intro k r hk
    simp only [hgroup] at hk
    by_cases hkp : k = p
    · rw [hkp, update_self] at hk
      obtain rfl := Option.some.inj hk
      exact List.nodup_nil
    · rw [update_of_ne hkp] at hk
      exact h.threads.nodup k r hk
  · intro k r hk
    simp only [hgroup] at hk ⊢
    by_cases hkp : k = p
    · rw [hkp, update_self] at hk
      obtain rfl := Option.some.inj hk
      rw [hkp, update_self]
      exact ⟨congrArg some hp, fun hne => absurd rfl hne⟩
    · rw [update_of_ne hkp] at hk ⊢
      exact h.threads.leader k r hk
  · intro q k hq hexit
    simp only [hgroup] at hq ⊢
    by_cases hqp : q = p
    · rw [hqp, update_self] at hq
      rw [← Option.some.inj hq] at hexit
      simp at hexit
    · rw [update_of_ne hqp] at hq
      obtain ⟨r, hr, hmem⟩ := h.threads.run q k hq hexit
      by_cases hkp : k.group = p
      · rw [hkp, hg] at hr
        obtain rfl := Option.some.inj hr
        have hin := (List.mem_erase_of_ne hqp).2 hmem
        simp [hlast] at hin
      · rw [update_of_ne hkp]
        exact ⟨r, hr, hmem⟩

lemma exit_thread (ht : s.task current = some t) (hg : s.group t.group = some g)
    (hne : current ≠ t.group) (hmore : g.threads.erase current ≠ []) (autoReap : Bool) :
    ∃ parent, s.exit current autoReap = (s.dropThread t.group current).reparent current parent := by
  refine ⟨(s.markExiting current).findNewParent g, ?_⟩
  unfold exit dropThread
  simp only [ht, hg, List.isEmpty_iff, hmore, hne, if_false]
  ext1
  · funext q
    by_cases hq : q = current <;>
      simp [hq, markExiting, reparent, leaveGroup, ht, hg]
  · simp [markExiting, reparent, leaveGroup, ht, hg]
  · simp [markExiting, reparent, leaveGroup, ht, hg]
  · simp [markExiting, reparent, leaveGroup, ht, hg]

lemma exit_leader (ht : s.task current = some t) (hg : s.group t.group = some g)
    (hlead : current = t.group) (hlast : g.threads.erase current = []) (hz : t.zombie = false)
    (autoReap : Bool) : ∃ parent, s.exit current autoReap =
      if autoReap then ((s.endGroup current t false).reparent current parent).destroyGroup current
      else (s.endGroup current t true).reparent current parent := by
  refine ⟨(s.markExiting current).findNewParent g, ?_⟩
  generalize hparent : (s.markExiting current).findNewParent g = parent
  have hg' : s.group current = some g := hlead ▸ hg
  have hstep : ((s.markExiting current).reparent current parent).leaveGroup current current =
      (s.endGroup current t false).reparent current parent := by
    unfold endGroup
    ext1
    · funext q
      by_cases hq : q = current <;> simp [hq, markExiting, reparent, leaveGroup, ht, hg', hz]
    · simp [markExiting, reparent, leaveGroup, ht, hg']
    · simp [markExiting, reparent, leaveGroup, ht, hg']
    · simp [markExiting, reparent, leaveGroup, ht, hg']
  obtain ⟨new, hnew⟩ : ∃ new, ∀ z, ((s.endGroup current t z).reparent current parent).task current =
      some { t with parent := new, exiting := true, zombie := z } := by
    refine ⟨if t.parent = some current then parent else t.parent, fun z => ?_⟩
    simp only [reparent, endGroup, update_self, Option.map_some]
    split_ifs <;> rfl
  unfold exit
  simp only [ht, ← hlead, hg', List.isEmpty_iff, hlast, if_true, hparent, hstep]
  unfold groupDead
  simp only [hnew, Option.any_some, Bool.false_eq_true, if_false]
  split_ifs with hreap
  · rfl
  · unfold setZombie
    simp only [hnew]
    ext1
    · funext q
      by_cases hq : q = current
      · rw [hq, hnew true]
        exact update_self _ _ _
      · simp [hq, reparent, endGroup]
    · simp [reparent, endGroup]
    · simp [reparent, endGroup]
    · simp [reparent, endGroup]

lemma exit_cases (h : s.Inv) (hr : s.runs current = true) (autoReap : Bool)
    (hlast : ∀ t g, s.task current = some t → s.group t.group = some g → current = t.group →
      g.threads = [current]) :
    ∃ t g parent, s.task current = some t ∧ s.group t.group = some g ∧
      (current ≠ t.group ∧
        s.exit current autoReap = (s.dropThread t.group current).reparent current parent ∨
      current = t.group ∧ g.threads.erase current = [] ∧ s.exit current autoReap =
        if autoReap then
          ((s.endGroup current t false).reparent current parent).destroyGroup current
        else (s.endGroup current t true).reparent current parent) := by
  obtain ⟨t, g, ht, hexit, hg, hmem⟩ := h.group_of_runs hr
  by_cases hlead : current = t.group
  · have hnone : g.threads.erase current = [] := by
      rw [hlast t g ht hg hlead]
      simp
    obtain ⟨parent, hrec⟩ := h.threads.mem _ g hg current hmem
    have hz : t.zombie = false := by
      rw [ht] at hrec
      rw [Option.some.inj hrec]
    obtain ⟨new, heq⟩ := exit_leader ht hg hlead hnone hz autoReap
    exact ⟨t, g, new, ht, hg, Or.inr ⟨hlead, hnone, heq⟩⟩
  · have hleader := (h.threads.leader _ g hg).2 (List.ne_nil_of_mem hmem)
    have hmore : g.threads.erase current ≠ [] :=
      List.ne_nil_of_mem ((List.mem_erase_of_ne (Ne.symm hlead)).2 hleader)
    obtain ⟨parent, heq⟩ := exit_thread ht hg hlead hmore autoReap
    exact ⟨t, g, parent, ht, hg, Or.inl ⟨hlead, heq⟩⟩

lemma inv_exit (h : s.Inv) (hr : s.runs current = true) (autoReap : Bool)
    (hlast : ∀ t g, s.task current = some t → s.group t.group = some g → current = t.group →
      g.threads = [current]) : (s.exit current autoReap).Inv := by
  obtain ⟨t, g, parent, ht, hg, ⟨hlead, heq⟩ | ⟨hlead, hnone, heq⟩⟩ := exit_cases h hr autoReap hlast
  · rw [heq]
    exact inv_reparent (inv_dropThread h ht hg hlead) current parent
  · have hg' : s.group current = some g := hlead ▸ hg
    rw [heq]
    split_ifs
    · have hend := inv_reparent (inv_endGroup h ht hlead.symm hg' hnone false) current parent
      refine inv_destroyGroup hend (fun r hr => ?_) fun t' ht' => ?_
      · have hgroup : (s.leaveGroup current current).group =
            update s.group current (some { g with threads := [] }) := by
          have hgr := leaveGroup_group (s := s) (t := t) (g := g) hg current
          rwa [← hlead, hnone] at hgr
        simp only [reparent, endGroup, hgroup, update_self, Option.some.injEq] at hr
        rw [← hr]
      · obtain ⟨old, hold⟩ := reparent_task _ current parent ht'
        simp only [endGroup, update_self, Option.some.injEq] at hold
        have hgr := congrArg ThreadRec.group hold
        exact hgr.symm.trans hlead.symm
    · exact inv_reparent (inv_endGroup h ht hlead.symm hg' hnone true) current parent

/-! ### The size of the pid table -/

structure Small (s : PidTable) : Prop where
  task : ∀ p, s.task p ≠ none → p ≤ maxPid
  pgid : ∀ g n, s.pgidOf g = some n → n ≤ maxPid

lemma Small.mono {s' : PidTable} (h : s.Small) (ht : ∀ p, s'.task p ≠ none → s.task p ≠ none)
    (hg : ∀ g n, s'.pgidOf g = some n → s.pgidOf g = some n) : s'.Small :=
  ⟨fun p hp => h.task p (ht p hp), fun g n hn => h.pgid g n (hg g n hn)⟩

lemma small_destroyGroup (h : s.Small) : (s.destroyGroup p).Small := by
  refine h.mono (fun q hq => ?_) fun k n hn => ?_
  · by_cases hqp : q = p
    · simp [destroyGroup, hqp] at hq
    · simpa [destroyGroup, hqp] using hq
  · by_cases hkp : k = p
    · simp [destroyGroup, pgidOf, hkp] at hn
    · simpa [destroyGroup, pgidOf, hkp] using hn

lemma small_reparent (h : s.Small) (q : ℕ) (parent : Option ℕ) : (s.reparent q parent).Small := by
  refine h.mono (fun p hp hnone => hp ?_) fun k n hn => hn
  simp [reparent, hnone]

lemma small_dropThread (h : s.Small) (group : ℕ) : (s.dropThread group p).Small := by
  refine h.mono (fun q hq => ?_) fun k n hn => (leaveGroup_numbers s group p k).1 ▸ hn
  by_cases hqp : q = p
  · simp [dropThread, hqp] at hq
  · simpa [dropThread, leaveGroup, hqp] using hq

lemma small_endGroup (h : s.Small) (ht : s.task p ≠ none) (zombie : Bool) :
    (s.endGroup p t zombie).Small := by
  refine h.mono (fun q hq => ?_) fun k n hn => (leaveGroup_numbers s p p k).1 ▸ hn
  by_cases hqp : q = p
  · rwa [hqp]
  · simpa [endGroup, leaveGroup, hqp] using hq

lemma small_exit (h : s.Inv) (hsmall : s.Small) (hr : s.runs current = true) (autoReap : Bool)
    (hlast : ∀ t g, s.task current = some t → s.group t.group = some g → current = t.group →
      g.threads = [current]) : (s.exit current autoReap).Small := by
  obtain ⟨t, g, parent, ht, hg, ⟨hlead, heq⟩ | ⟨hlead, hnone, heq⟩⟩ := exit_cases h hr autoReap hlast
  · rw [heq]
    exact small_reparent (small_dropThread hsmall _) _ _
  · have hne : s.task current ≠ none := by simp [ht]
    rw [heq]
    split_ifs
    · exact small_destroyGroup (small_reparent (small_endGroup hsmall hne false) _ _)
    · exact small_reparent (small_endGroup hsmall hne true) _ _

lemma setpgidTarget_ok {id pgid group n : ℕ}
    (h : s.setpgidTarget current id pgid = .ok (p, group, n)) : s.noPid p = false := by
  unfold setpgidTarget at h
  simp only at h
  generalize (if id = 0 then current else id) = q at h
  generalize (if pgid = 0 then q else pgid) = m at h
  by_cases hno : s.noPid q = true
  · simp [hno] at h
  · rw [if_neg hno] at h
    cases ht : s.task q with
    | none => simp [ht] at h
    | some t =>
      simp only [ht] at h
      cases hg : s.group t.group with
      | none => simp [hg] at h
      | some g =>
        simp only [hg] at h
        split_ifs at h
        simp only [Except.ok.injEq, Prod.mk.injEq] at h
        rw [← h.1]
        simpa using hno

end PidTable

open PidTable

/-- What the lists are kept right by: `setpgid` moves a group only to its own number, `setsid` is
called by leaders, and a leader exits when its other threads have. -/
def GroupEvent.Kept (s : PidTable) : GroupEvent → Prop
  | .setpgid current id pgid => ∀ p group n, s.setpgidTarget current id pgid = .ok (p, group, n) →
    s.pgidOf group = some n ∨ p = n
  | .setsid current => ∀ t g, s.task current = some t → s.group t.group = some g →
    ¬ (g.pgid = t.group ∨ g.sid = t.group) → current = t.group
  | .exit current _ => ∀ t g, s.task current = some t → s.group t.group = some g →
    current = t.group → g.threads = [current]
  | _ => True

lemma inv_groupStep {s : PidTable} {e : GroupEvent} (he : e.Kept s) (h : s.Inv) :
    (groupStep s e).Inv := by
  cases e with
  | fork current child =>
    simp only [groupStep]
    split_ifs with hc
    · obtain ⟨t, g, ht, -, hg, -⟩ := h.group_of_runs hc.1
      have hfree := hc.2
      simp only [freePid, pidEmpty, decide_eq_true_eq] at hfree
      exact inv_fork h ht hg hfree.2.2.1
    · exact h
  | newThread current child =>
    simp only [groupStep]
    split_ifs with hc
    · obtain ⟨t, g, ht, -, hg, hmem⟩ := h.group_of_runs hc.1
      have hfree := hc.2
      simp only [freePid, pidEmpty, decide_eq_true_eq] at hfree
      exact inv_newThread h ht hg hmem hfree.2.2.1
    · exact h
  | setpgid current id pgid =>
    simp only [groupStep]
    split_ifs
    · exact inv_setpgid h he
    · exact h
  | setsid current =>
    simp only [groupStep]
    split_ifs
    · exact inv_setsid h he
    · exact h
  | exit current autoReap =>
    simp only [groupStep]
    split_ifs with hc
    · exact inv_exit h hc.1 autoReap he
    · exact h
  | reap p => exact inv_reap h

lemma small_groupStep {s : PidTable} {e : GroupEvent} (he : e.Kept s) (h : s.Inv)
    (hsmall : s.Small) : (groupStep s e).Small := by
  cases e with
  | fork current child =>
    simp only [groupStep]
    split_ifs with hc
    · obtain ⟨t, g, ht, -, hg, -⟩ := h.group_of_runs hc.1
      have hfree := hc.2
      simp only [freePid, decide_eq_true_eq] at hfree
      unfold PidTable.fork
      simp only [ht, hg]
      refine ⟨fun q hq => ?_, fun k n hn => ?_⟩
      · by_cases hqc : q = child
        · rw [hqc]
          exact hfree.2.1
        · simp only [update_of_ne hqc] at hq
          exact hsmall.task q hq
      · by_cases hkc : k = child
        · simp only [pgidOf, hkc, update_self, Option.map_some, Option.some.injEq] at hn
          exact hn ▸ hsmall.pgid t.group g.pgid (by simp [pgidOf, hg])
        · simp only [pgidOf, update_of_ne hkc] at hn
          exact hsmall.pgid k n hn
    · exact hsmall
  | newThread current child =>
    simp only [groupStep]
    split_ifs with hc
    · obtain ⟨t, g, ht, -, hg, -⟩ := h.group_of_runs hc.1
      have hfree := hc.2
      simp only [freePid, decide_eq_true_eq] at hfree
      unfold PidTable.newThread
      simp only [ht, hg]
      refine ⟨fun q hq => ?_, fun k n hn => ?_⟩
      · by_cases hqc : q = child
        · rw [hqc]
          exact hfree.2.1
        · simp only [update_of_ne hqc] at hq
          exact hsmall.task q hq
      · by_cases hkg : k = t.group
        · simp only [pgidOf, hkg, update_self, Option.map_some, Option.some.injEq] at hn
          exact hn ▸ hsmall.pgid t.group g.pgid (by simp [pgidOf, hg])
        · simp only [pgidOf, update_of_ne hkg] at hn
          exact hsmall.pgid k n hn
    · exact hsmall
  | setpgid current id pgid =>
    simp only [groupStep]
    split_ifs
    · unfold PidTable.setpgid
      cases htarget : s.setpgidTarget current id pgid with
      | error e => exact hsmall
      | ok r =>
        obtain ⟨p, group, n⟩ := r
        simp only
        cases hg : s.group group with
        | none => exact hsmall
        | some g =>
          simp only
          split_ifs with hsame
          · exact hsmall
          · have hpn : p = n := by
              refine (he p group n htarget).resolve_left fun hpgid => hsame ?_
              simpa [pgidOf, hg] using hpgid
            have hno := setpgidTarget_ok htarget
            simp only [noPid, decide_eq_false_iff_not, not_or, not_lt] at hno
            refine ⟨hsmall.task, fun k m hm => ?_⟩
            by_cases hk : k = group
            · simp only [pgidOf, hk, update_self, Option.map_some, Option.some.injEq] at hm
              rw [← hm, ← hpn]
              exact hno.1
            · simp only [pgidOf, update_of_ne hk] at hm
              exact hsmall.pgid k m hm
    · exact hsmall
  | setsid current =>
    simp only [groupStep]
    split_ifs with hc
    · obtain ⟨t, g, ht, -, hg, -⟩ := h.group_of_runs hc
      unfold PidTable.setsid
      simp only [ht, hg]
      split_ifs with hrefused
      · exact hsmall
      · refine ⟨hsmall.task, fun k m hm => ?_⟩
        by_cases hk : k = t.group
        · simp only [pgidOf, hk, update_self, Option.map_some, Option.some.injEq] at hm
          rw [← hm, ← he t g ht hg hrefused]
          exact hsmall.task current (by simp [ht])
        · simp only [pgidOf, update_of_ne hk] at hm
          exact hsmall.pgid k m hm
    · exact hsmall
  | exit current autoReap =>
    simp only [groupStep]
    split_ifs with hc
    · exact small_exit h hsmall hc.1 autoReap he
    · exact hsmall
  | reap p =>
    simp only [groupStep, PidTable.reap]
    split_ifs
    · exact small_destroyGroup hsmall
    · exact hsmall

/-- Each thread group is on one list of each kind, the one of its number, and a signal for a process
group goes to the groups of that number that have threads. -/
structure PidTable.Membership (s : PidTable) : Prop where
  pgroup : ∀ g r, s.group g = some r → ∀ p, (s.pgroup p).count g = if p = r.pgid then 1 else 0
  session : ∀ g r, s.group g = some r → ∀ p, (s.session p).count g = if p = r.sid then 1 else 0
  kill : ∀ n g, g ∈ s.killGroup n ↔ ∃ r, s.group g = some r ∧ r.pgid = n ∧ r.threads ≠ []

lemma membership_of_inv {s : PidTable} (h : s.Inv) (hsmall : s.Small) : s.Membership := by
  refine ⟨fun g r hg p => ?_, fun g r hg p => ?_, fun n g => ?_⟩
  · rw [h.linked.pgroup g p]
    simp [pgidOf, hg, eq_comm]
  · rw [h.linked.session g p]
    simp [sidOf, hg, eq_comm]
  · have hlist : g ∈ s.pgroup n ↔ ∃ r, s.group g = some r ∧ r.pgid = n := by
      rw [h.linked.pgroup.mem_iff]
      exact Option.map_eq_some_iff
    unfold killGroup
    constructor
    · intro hmem
      split_ifs at hmem with hno
      · simp at hmem
      · obtain ⟨hin, htask⟩ := List.mem_filter.1 hmem
        obtain ⟨r, hr, hn⟩ := hlist.1 hin
        obtain ⟨t, ht, hgroup⟩ := Option.map_eq_some_iff.1 (h.threads.leader g r hr).1
        have hrun : t.zombie = false ∧ t.exiting = false := by simpa [ht] using htask
        obtain ⟨r', hr', hin'⟩ := h.threads.run g t ht hrun.2
        rw [hgroup, hr] at hr'
        exact ⟨r, hr, hn, by rw [Option.some.inj hr']; exact List.ne_nil_of_mem hin'⟩
    · rintro ⟨r, hr, hn, hne⟩
      have hin := hlist.2 ⟨r, hr, hn⟩
      have hno : s.noPid n = false := by
        have hle := hsmall.pgid g n (by simp [pgidOf, hr, hn])
        have hnil := List.ne_nil_of_mem hin
        simp only [noPid, pidEmpty, decide_eq_false_iff_not, decide_eq_true_eq, not_or, not_lt]
        exact ⟨hle, fun hempty => hnil hempty.2.2⟩
      obtain ⟨parent, hrec⟩ := h.threads.mem g r hr g ((h.threads.leader g r hr).2 hne)
      rw [if_neg (by simp [hno])]
      exact List.mem_filter.2 ⟨hin, by simp [hrec]⟩

lemma inv_initTable : initTable.Inv ∧ initTable.Small := by
  have hgroup : ∀ g r, initTable.group g = some r → g = 1 ∧ r = ⟨1, 1, [1]⟩ := by
    intro g r hg
    by_cases h1 : g = 1
    · simp only [initTable, h1, update_self, Option.some.injEq] at hg
      exact ⟨h1, hg.symm⟩
    · simp [initTable, h1] at hg
  have hbuckets : Buckets (update (fun _ : ℕ => ([] : List ℕ)) 1 [1])
      (update (fun _ : ℕ => none) 1 (some 1)) := Buckets.empty.push rfl 1
  refine ⟨⟨⟨?_, ?_⟩, ⟨?_, ?_, ?_, ?_⟩⟩, ⟨?_, ?_⟩⟩
  · have hkey : initTable.pgidOf = update (fun _ => none) 1 (some 1) := map_update _ _ _ _
    rw [hkey]
    exact hbuckets
  · have hkey : initTable.sidOf = update (fun _ => none) 1 (some 1) := map_update _ _ _ _
    rw [hkey]
    exact hbuckets
  · intro g r hg p hp
    obtain ⟨rfl, rfl⟩ := hgroup g r hg
    obtain rfl := List.mem_singleton.1 hp
    exact ⟨none, rfl⟩
  · intro g r hg
    obtain ⟨rfl, rfl⟩ := hgroup g r hg
    exact List.nodup_singleton _
  · intro g r hg
    obtain ⟨rfl, rfl⟩ := hgroup g r hg
    exact ⟨rfl, fun _ => List.mem_singleton_self _⟩
  · intro p t ht hexit
    by_cases h1 : p = 1
    · subst h1
      simp only [initTable, update_self, Option.some.injEq] at ht
      rw [← ht]
      exact ⟨_, rfl, List.mem_singleton_self _⟩
    · simp [initTable, h1] at ht
  · intro p hp
    by_cases h1 : p = 1
    · rw [h1]
      unfold maxPid
      norm_num
    · simp [initTable, h1] at hp
  · intro g n hn
    obtain ⟨r, hr, hpgid⟩ := Option.map_eq_some_iff.1 hn
    obtain ⟨-, rfl⟩ := hgroup g r hr
    rw [← hpgid]
    unfold maxPid
    norm_num

/-- In every run in which `setpgid` moves groups only to their own number, `setsid` is called by
leaders and leaders exit last. -/
theorem process_group_membership {events : List GroupEvent}
    (h : RunAll groupStep (fun s e => e.Kept s) initTable events) :
    (run groupStep initTable events).Membership := by
  have hinv : (run groupStep initTable events).Inv ∧ (run groupStep initTable events).Small := by
    refine run_invariant (P := fun s => s.Inv ∧ s.Small) ?_ h inv_initTable
    rintro s e he ⟨hs, hsmall⟩
    exact ⟨inv_groupStep he hs, small_groupStep he hs hsmall⟩
  exact membership_of_inv hinv.1 hinv.2

def jobEvents : List GroupEvent :=
  [.fork 1 2, .setsid 2, .fork 2 3, .setpgid 2 3 3, .newThread 3 4, .exit 4 false, .exit 3 false]

theorem process_group_membership_job : (run groupStep initTable jobEvents).Membership := by
  refine process_group_membership ⟨trivial, ?_, trivial, ?_, trivial, ?_, ?_, trivial⟩
  · rintro t g ht - -
    obtain rfl := Option.some.inj ht
    rfl
  · rintro p group n hok
    obtain ⟨rfl, -, rfl⟩ : 3 = p ∧ 3 = group ∧ 3 = n := by simpa using Except.ok.inj hok
    exact Or.inr rfl
  · rintro t g ht - hlead
    obtain rfl := Option.some.inj ht
    exact absurd hlead (by decide)
  · rintro t g ht hg -
    obtain rfl := Option.some.inj ht
    obtain rfl := Option.some.inj hg
    rfl

/-- A shell puts two processes into a job: the second is linked at its own pid, and a signal for
the job does not reach it. A thread that calls `setsid` has its group linked at its own pid. A
group whose leader has exited before its other threads gets no signals. -/
theorem setpgid_job_lost :
    (let s := run groupStep initTable
      [.fork 1 2, .setsid 2, .fork 2 3, .fork 2 4, .setpgid 2 3 3, .setpgid 2 4 3]
    (s.group 4).map TgroupRec.pgid = some 3 ∧ s.pgroup 3 = [3] ∧ s.pgroup 4 = [4] ∧
      s.killGroup 3 = [3]) ∧
    (let s := run groupStep initTable [.fork 1 2, .newThread 2 3, .setsid 3]
    (s.group 2).map TgroupRec.sid = some 2 ∧ s.session 2 = [] ∧ s.session 3 = [2]) ∧
    (let s := run groupStep initTable [.fork 1 2, .setsid 2, .newThread 2 3, .exit 2 false]
    s.group 2 = some ⟨2, 2, [3]⟩ ∧ s.killGroup 2 = []) := by
  decide +kernel

end ShellBox
