import Mathlib

/-!
# Waiting for children

`do_wait` looks for a child that has something to report: for any child or a process group it
goes over the children of the thread that calls, once for each thread of its group, and for one
pid it asks whether the parent of that task is in the group of the caller. If there is nothing to
report it sleeps and looks again.
-/

namespace ShellBox

open Function

/-- What `do_wait` reads of `struct task`. -/
structure WaitTask where
  group : ℕ
  parent : Option ℕ
  children : List ℕ
  uid : ℕ
  zombie : Bool
  exitCode : ℕ
  ptraceStopped : Bool
  ptraceSignal : ℕ
  deriving DecidableEq

/-- What `do_wait` reads of `struct tgroup`. -/
structure WaitGroup where
  leader : ℕ
  threads : List ℕ
  pgid : ℕ
  stopped : Bool
  continued : Bool
  doingGroupExit : Bool
  groupExitCode : ℕ
  deriving DecidableEq

structure TaskTree where
  task : ℕ → Option WaitTask
  group : ℕ → Option WaitGroup

abbrev WaitOptions := BitVec 32

def wnohang : WaitOptions := 1
def wuntraced : WaitOptions := 2
def wexited : WaitOptions := 4
def wcontinued : WaitOptions := 8
def wnowait : WaitOptions := 0x1000000
def wall : WaitOptions := 0x40000000

def hasOption (options flag : WaitOptions) : Bool := options &&& flag ≠ 0

structure ChildReport where
  status : ℕ
  trapped : Bool
  deriving DecidableEq

namespace TaskTree

def groupOf (s : TaskTree) (p : ℕ) : Option WaitGroup := (s.task p).bind fun t => s.group t.group

/-- `task_is_leader` -/
def isLeader (s : TaskTree) (p : ℕ) : Bool := (s.groupOf p).any fun g => g.leader = p

def setGroup (s : TaskTree) (p : ℕ) (g : WaitGroup) : TaskTree :=
  match s.task p with
  | some t => { s with group := update s.group t.group (some g) }
  | none => s

/-- The end of `reap_if_zombie`. -/
def destroy (s : TaskTree) (p : ℕ) : TaskTree :=
  match s.task p with
  | some t =>
    { task := fun q => if q = p then none else (s.task q).map fun k =>
        { k with children := k.children.erase p }
      group := update s.group t.group none }
  | none => s

def notifyIfStopped (s : TaskTree) (p : ℕ) (options : WaitOptions) :
    Option (ChildReport × TaskTree) :=
  (s.groupOf p).bind fun g =>
    if ¬ g.stopped ∨ g.groupExitCode = 0 then none
    else some (⟨g.groupExitCode, false⟩,
      if hasOption options wnowait then s else s.setGroup p { g with groupExitCode := 0 })

def notifyIfContinued (s : TaskTree) (p : ℕ) (options : WaitOptions) :
    Option (ChildReport × TaskTree) :=
  (s.groupOf p).bind fun g =>
    if ¬ g.continued then none
    else some (⟨0xffff, false⟩,
      if hasOption options wnowait then s else s.setGroup p { g with continued := false })

def reapIfZombie (s : TaskTree) (p : ℕ) (options : WaitOptions) :
    Option (ChildReport × TaskTree) :=
  (s.task p).bind fun t => (s.groupOf p).bind fun g =>
    if ¬ t.zombie then none
    else some (⟨if g.doingGroupExit then g.groupExitCode else t.exitCode, false⟩,
      if hasOption options wnowait then s else s.destroy p)

/-- The ptrace stop at the end of `reap_if_needed`. -/
def notifyIfTrapped (s : TaskTree) (p : ℕ) (options : WaitOptions) :
    Option (ChildReport × TaskTree) :=
  (s.task p).bind fun t =>
    if ¬ t.ptraceStopped ∨ t.ptraceSignal = 0 then none
    else some (⟨t.ptraceSignal <<< 8 ||| 0x7f, true⟩,
      if hasOption options wnowait then s
      else { s with task := update s.task p (some { t with ptraceSignal := 0 }) })

def reapIfNeeded (s : TaskTree) (p : ℕ) (options : WaitOptions) :
    Option (ChildReport × TaskTree) :=
  (if hasOption options wuntraced then s.notifyIfStopped p options else none) <|>
  (if hasOption options wcontinued then s.notifyIfContinued p options else none) <|>
  (if hasOption options wexited then s.reapIfZombie p options else none) <|>
  (if hasOption options wuntraced then s.notifyIfTrapped p options else none)

end TaskTree

/-- `idtype` and `id` -/
inductive WaitFor
  | all
  | pid (id : ℕ)
  | pgid (id : ℕ)

inductive WaitScan
  | found (pid uid : ℕ) (report : ChildReport) (after : TaskTree)
  | echild
  | nothing

namespace TaskTree

def pgidMatches (s : TaskTree) (current id p : ℕ) : Bool :=
  (s.groupOf p).map WaitGroup.pgid =
    if id = 0 then (s.groupOf current).map WaitGroup.pgid else some id

def matchesId (s : TaskTree) (current : ℕ) : WaitFor → ℕ → Bool
  | .all, _ => true
  | .pid id, p => p = id
  | .pgid id, p => s.pgidMatches current id p

def wanted (s : TaskTree) (current : ℕ) (w : WaitFor) (p : ℕ) : Bool :=
  s.isLeader p ∧ s.matchesId current w p

def report (s : TaskTree) (options : WaitOptions) (pid p : ℕ) : Option WaitScan :=
  (s.reapIfNeeded p options).map fun r => .found pid (((s.task p).map WaitTask.uid).getD 0) r.1 r.2

/-- One round of the loop for any child or a process group. The children looked at are those of
the caller, for each of the threads of the group. -/
def scanChildren (s : TaskTree) (current : ℕ) (w : WaitFor) (options : WaitOptions) : WaitScan :=
  let threads := ((s.groupOf current).map WaitGroup.threads).getD []
  let children := ((s.task current).map WaitTask.children).getD []
  let candidates := (threads.flatMap fun _ => children).filter (s.wanted current w)
  match candidates.findSome? fun p => s.report options p p with
  | some r => r
  | none => if candidates = [] then .echild else .nothing

def scanPid (s : TaskTree) (current id : ℕ) (options : WaitOptions) : WaitScan :=
  match s.task id with
  | none => .echild
  | some t =>
    match t.parent with
    | none => .echild
    | some parent =>
      if (s.task parent).map WaitTask.group ≠ (s.task current).map WaitTask.group then .echild
      else
        match s.groupOf id with
        | none => .nothing
        | some g => (s.report options id g.leader).getD .nothing

def scan (s : TaskTree) (current : ℕ) (options : WaitOptions) : WaitFor → WaitScan
  | .pid id => s.scanPid current id options
  | w => s.scanChildren current w options

end TaskTree

inductive WaitResult
  | found (pid uid : ℕ) (report : ChildReport) (after : TaskTree)
  /-- `WNOHANG`, with pid zero. -/
  | none
  | error (e : ℤ)

/-- The loop of `do_wait`: what each round sees, and whether the sleep behind it ends with a
signal. There is no result while the caller sleeps. -/
def waitLoop (current : ℕ) (w : WaitFor) (options : WaitOptions) :
    Bool → List (TaskTree × Bool) → Option WaitResult
  | _, [] => Option.none
  | gotSignal, (s, signal) :: rounds =>
    match s.scan current options w with
    | .found pid uid report after => some (.found pid uid report after)
    | .echild => some (.error (-10))
    | .nothing =>
      if hasOption options wnohang then some .none
      else if gotSignal then some (.error (-4))
      else waitLoop current w options (gotSignal || signal) rounds

/-- `do_wait`; `P_ALL` is zero, `P_PID` one and `P_PGID` two. -/
def doWait (current idtype id : ℕ) (options : WaitOptions) (rounds : List (TaskTree × Bool)) :
    Option WaitResult :=
  let known := wnohang ||| wuntraced ||| wexited ||| wcontinued ||| wnowait ||| wall
  if 2 < idtype then some (.error (-22))
  else if options &&& ~~~known ≠ 0 then some (.error (-22))
  else if ¬ hasOption options (wuntraced ||| wexited ||| wcontinued) then some (.error (-22))
  else
    let w := if idtype = 0 then WaitFor.all else if idtype = 1 then .pid id else .pgid id
    waitLoop current w options false rounds

namespace TaskTree

/-! ### The children of a thread group -/

def childOfGroup (s : TaskTree) (current p : ℕ) : Bool :=
  ((s.task p).bind WaitTask.parent).any fun q =>
    (s.task q).map WaitTask.group = (s.task current).map WaitTask.group

def Eligible (s : TaskTree) (current : ℕ) (w : WaitFor) (p : ℕ) : Prop :=
  s.childOfGroup current p = true ∧ s.wanted current w p = true

def Ready (s : TaskTree) (options : WaitOptions) (p : ℕ) : Prop :=
  (s.reapIfNeeded p options).isSome = true

def Answers (s : TaskTree) (current : ℕ) (w : WaitFor) (options : WaitOptions) : WaitScan → Prop
  | .echild => ∀ p, ¬ s.Eligible current w p
  | .nothing => (∃ p, s.Eligible current w p) ∧ ∀ p, s.Eligible current w p → ¬ s.Ready options p
  | .found pid uid r after => s.Eligible current w pid ∧
    s.report options pid pid = some (.found pid uid r after)

/-- The thread that calls can see what its group has to wait for: if the group has children of the
kind, or ones with something to report, so has the thread itself; and the pid of a thread is not
waited for. -/
def Seen (s : TaskTree) (current : ℕ) (options : WaitOptions) : WaitFor → Prop
  | .pid id => s.childOfGroup current id = true → s.isLeader id = true
  | w =>
    let own p := ∃ t, s.task current = some t ∧ p ∈ t.children
    ((∃ p, s.Eligible current w p) → ∃ p, own p ∧ s.Eligible current w p) ∧
      ((∃ p, s.Eligible current w p ∧ s.Ready options p) →
        ∃ p, own p ∧ s.Eligible current w p ∧ s.Ready options p)

/-- The lists of children are those of the parents' names, and the caller is on the list of its
group. -/
structure Wf (s : TaskTree) (current : ℕ) : Prop where
  children : ∀ p t, s.task p = some t → ∀ c, c ∈ t.children ↔
    ∃ k, s.task c = some k ∧ k.parent = some p
  group : ∀ p t, s.task p = some t → ∃ g, s.group t.group = some g
  caller : ∃ t g, s.task current = some t ∧ s.group t.group = some g ∧ current ∈ g.threads

variable {s : TaskTree} {current p : ℕ} {w : WaitFor} {options : WaitOptions}

lemma report_found {pid : ℕ} {r : WaitScan} (h : s.report options pid p = some r) :
    s.Ready options p ∧ ∃ uid report after, r = .found pid uid report after := by
  obtain ⟨x, hx, rfl⟩ := Option.map_eq_some_iff.1 h
  exact ⟨by simp [Ready, hx], _, _, _, rfl⟩

lemma report_of_ready (h : s.Ready options p) (pid : ℕ) : (s.report options pid p).isSome = true := by
  unfold report
  rwa [Option.isSome_map]

lemma mem_candidates (h : s.Wf current) :
    p ∈ ((((s.groupOf current).map WaitGroup.threads).getD []).flatMap
      fun _ => ((s.task current).map WaitTask.children).getD []).filter (s.wanted current w) ↔
    (∃ t, s.task current = some t ∧ p ∈ t.children) ∧ s.Eligible current w p := by
  obtain ⟨t, g, ht, hg, hmem⟩ := h.caller
  have hgroup : s.groupOf current = some g := by simp [groupOf, ht, hg]
  have hchild : p ∈ t.children → s.childOfGroup current p = true := by
    intro hp
    obtain ⟨k, hk, hparent⟩ := (h.children current t ht p).1 hp
    simp [childOfGroup, hk, hparent]
  simp only [hgroup, ht, Option.map_some, Option.getD_some, List.mem_filter, List.mem_flatMap,
    Option.some.injEq, Eligible]
  constructor
  · rintro ⟨⟨-, -, hp⟩, hw⟩
    exact ⟨⟨t, rfl, hp⟩, hchild hp, hw⟩
  · rintro ⟨⟨t', rfl, hp⟩, -, hw⟩
    exact ⟨⟨current, hmem, hp⟩, hw⟩

lemma scanChildren_answers_iff (h : s.Wf current) (hw : ∀ id, w ≠ .pid id) :
    s.Answers current w options (s.scanChildren current w options) ↔
      s.Seen current options w := by
  have hseen : s.Seen current options w ↔
      ((∃ p, s.Eligible current w p) →
        ∃ p, (∃ t, s.task current = some t ∧ p ∈ t.children) ∧ s.Eligible current w p) ∧
      ((∃ p, s.Eligible current w p ∧ s.Ready options p) →
        ∃ p, (∃ t, s.task current = some t ∧ p ∈ t.children) ∧ s.Eligible current w p ∧
          s.Ready options p) := by
    cases w with
    | pid id => exact absurd rfl (hw id)
    | all => exact Iff.rfl
    | pgid id => exact Iff.rfl
  have hcand := fun p => mem_candidates (p := p) (w := w) h
  rw [hseen]
  unfold scanChildren
  simp only
  generalize ((((s.groupOf current).map WaitGroup.threads).getD []).flatMap
    fun _ => ((s.task current).map WaitTask.children).getD []).filter (s.wanted current w) =
      candidates at hcand
  cases hfind : candidates.findSome? fun p => s.report options p p with
  | some r =>
    obtain ⟨p, hp, hr⟩ := List.exists_of_findSome?_eq_some hfind
    obtain ⟨hready, uid, report, after, rfl⟩ := report_found hr
    obtain ⟨hown, helig⟩ := (hcand p).1 hp
    exact iff_of_true ⟨helig, hr⟩ ⟨fun _ => ⟨p, hown, helig⟩, fun _ => ⟨p, hown, helig, hready⟩⟩
  | none =>
    have hnone : ∀ p ∈ candidates, ¬ s.Ready options p := by
      intro p hp hready
      have hsome := report_of_ready hready p
      rw [List.findSome?_eq_none_iff.1 hfind p hp] at hsome
      cases hsome
    by_cases hnil : candidates = []
    · simp only [hnil, if_true]
      constructor
      · intro hno
        exact ⟨fun ⟨p, hp⟩ => absurd hp (hno p), fun ⟨p, hp, _⟩ => absurd hp (hno p)⟩
      · rintro ⟨hsee, -⟩ p hp
        obtain ⟨q, hown, hq⟩ := hsee ⟨p, hp⟩
        have hmem := (hcand q).2 ⟨hown, hq⟩
        simp [hnil] at hmem
    · simp only [hnil, if_false]
      obtain ⟨q, hq⟩ := List.exists_mem_of_ne_nil _ hnil
      obtain ⟨hown, helig⟩ := (hcand q).1 hq
      constructor
      · rintro ⟨-, hno⟩
        exact ⟨fun _ => ⟨q, hown, helig⟩, fun ⟨p, hp, hready⟩ => absurd hready (hno p hp)⟩
      · rintro ⟨-, hsee⟩
        refine ⟨⟨q, helig⟩, fun p hp hready => ?_⟩
        obtain ⟨q', hown', helig', hready'⟩ := hsee ⟨p, hp, hready⟩
        exact hnone q' ((hcand q').2 ⟨hown', helig'⟩) hready'

lemma scanPid_answers_iff {id : ℕ} (h : s.Wf current) :
    s.Answers current (.pid id) options (s.scanPid current id options) ↔
      s.Seen current options (.pid id) := by
  have hid {p : ℕ} (hp : s.Eligible current (.pid id) p) :
      p = id ∧ s.childOfGroup current id = true ∧ s.isLeader id = true := by
    obtain ⟨hchild, hw⟩ := hp
    simp only [wanted, matchesId, decide_eq_true_eq, Bool.decide_and, Bool.and_eq_true] at hw
    obtain ⟨hleader, rfl⟩ := hw
    exact ⟨rfl, hchild, hleader⟩
  by_cases hchild : s.childOfGroup current id = true
  · obtain ⟨parent, hparent, hgroup⟩ : ∃ q, (s.task id).bind WaitTask.parent = some q ∧
        (s.task q).map WaitTask.group = (s.task current).map WaitTask.group := by
      simpa [childOfGroup, Option.any_eq_true] using hchild
    obtain ⟨t, ht, hparent⟩ := Option.bind_eq_some_iff.1 hparent
    obtain ⟨g, hg⟩ := h.group id t ht
    have hgroupOf : s.groupOf id = some g := by simp [groupOf, ht, hg]
    have hscan : s.scanPid current id options = (s.report options id g.leader).getD .nothing := by
      simp [scanPid, ht, hparent, hgroup, hgroupOf]
    by_cases hleader : s.isLeader id = true
    · have heq : g.leader = id := by simpa [isLeader, hgroupOf] using hleader
      have helig : s.Eligible current (.pid id) id := ⟨hchild, by simp [wanted, matchesId, hleader]⟩
      rw [hscan, heq]
      refine iff_of_true ?_ fun _ => hleader
      cases hreport : s.report options id id with
      | some r =>
        obtain ⟨-, uid, report, after, rfl⟩ := report_found hreport
        exact ⟨helig, hreport⟩
      | none =>
        refine ⟨⟨id, helig⟩, fun p hp hready => ?_⟩
        obtain ⟨rfl, -⟩ := hid hp
        have hsome := report_of_ready hready p
        rw [hreport] at hsome
        cases hsome
    · -- The thread's group has an answer, but the thread is nobody's child.
      refine iff_of_false ?_ fun hseen => hleader (hseen hchild)
      have hno (p : ℕ) : ¬ s.Eligible current (.pid id) p := fun hp => hleader (hid hp).2.2
      rw [hscan]
      cases hreport : s.report options id g.leader with
      | some r =>
        obtain ⟨-, uid, report, after, rfl⟩ := report_found hreport
        rintro ⟨helig, -⟩
        exact hno id helig
      | none =>
        rintro ⟨⟨p, hp⟩, -⟩
        exact hno p hp
  · have hscan : s.scanPid current id options = .echild := by
      cases ht : s.task id with
      | none => simp [scanPid, ht]
      | some t =>
        cases hparent : t.parent with
        | none => simp [scanPid, ht, hparent]
        | some q =>
          have hgroup : (s.task q).map WaitTask.group ≠ (s.task current).map WaitTask.group := by
            intro hgroup
            exact hchild (by simp [childOfGroup, ht, hparent, hgroup])
          simp [scanPid, ht, hparent, hgroup]
    rw [hscan]
    exact iff_of_true (fun p hp => hchild (hid hp).2.1) fun hc => absurd hc hchild

lemma scan_answers_iff (h : s.Wf current) :
    s.Answers current w options (s.scan current options w) ↔ s.Seen current options w := by
  cases w with
  | all => exact scanChildren_answers_iff h fun _ hw => by cases hw
  | pgid id => exact scanChildren_answers_iff h fun _ hw => by cases hw
  | pid id => exact scanPid_answers_iff h

end TaskTree

def WaitScan.Gives : WaitScan → WaitResult → Prop
  | .found pid uid report after, r => r = .found pid uid report after
  | .echild, r => r = .error (-10)
  | .nothing, r => r = .none ∨ r = .error (-4)

open TaskTree

variable {current : ℕ} {w : WaitFor} {options : WaitOptions}

lemma waitLoop_gives {r : WaitResult} (rounds : List (TaskTree × Bool)) :
    ∀ {signal : Bool}, waitLoop current w options signal rounds = some r →
      ∃ x ∈ rounds, (x.1.scan current options w).Gives r := by
  induction rounds with
  | nil => intro signal h; cases h
  | cons x rounds ih =>
    intro signal h
    obtain ⟨s, next⟩ := x
    rw [waitLoop] at h
    cases hscan : s.scan current options w with
    | found pid uid report after =>
      simp only [hscan, Option.some.injEq] at h
      exact ⟨_, List.mem_cons_self, by rw [hscan]; exact h.symm⟩
    | echild =>
      simp only [hscan, Option.some.injEq] at h
      exact ⟨_, List.mem_cons_self, by rw [hscan]; exact h.symm⟩
    | nothing =>
      simp only [hscan] at h
      split_ifs at h with hnohang hsignal
      · exact ⟨_, List.mem_cons_self, by rw [hscan]; exact .inl (Option.some.inj h).symm⟩
      · exact ⟨_, List.mem_cons_self, by rw [hscan]; exact .inr (Option.some.inj h).symm⟩
      · obtain ⟨x, hx, hgives⟩ := ih h
        exact ⟨x, List.mem_cons_of_mem _ hx, hgives⟩

/-- A request that `do_wait` takes. -/
structure ValidWait (idtype : ℕ) (options : WaitOptions) : Prop where
  idtype : idtype ≤ 2
  known : options &&& ~~~(wnohang ||| wuntraced ||| wexited ||| wcontinued ||| wnowait ||| wall) = 0
  event : hasOption options (wuntraced ||| wexited ||| wcontinued) = true

def requested (idtype id : ℕ) : WaitFor :=
  if idtype = 0 then .all else if idtype = 1 then .pid id else .pgid id

lemma doWait_eq {idtype : ℕ} (h : ValidWait idtype options) (id : ℕ)
    (rounds : List (TaskTree × Bool)) :
    doWait current idtype id options rounds =
      waitLoop current (requested idtype id) options false rounds := by
  have hidtype := h.idtype
  rw [doWait, if_neg (by omega), if_neg (not_not.2 h.known), if_neg (not_not.2 h.event)]
  rfl

/-- Each look at the children is one at the children of all threads of the group exactly when the
thread that calls can see them. Where it can at every look, so is the result of the call: it is
the report of a child of the group with something to report, or there is no child, or none has
anything to report. -/
theorem wait_finds_children (current idtype id : ℕ) (options : WaitOptions)
    (hvalid : ValidWait idtype options) :
    (∀ s : TaskTree, s.Wf current →
      (s.Answers current (requested idtype id) options
          (s.scan current options (requested idtype id)) ↔
        s.Seen current options (requested idtype id))) ∧
    ∀ rounds : List (TaskTree × Bool),
      (∀ x ∈ rounds, x.1.Wf current ∧ x.1.Seen current options (requested idtype id)) →
      ∀ r, doWait current idtype id options rounds = some r →
        ∃ x ∈ rounds, ∃ scan : WaitScan,
          x.1.Answers current (requested idtype id) options scan ∧ scan.Gives r := by
  refine ⟨fun s h => scan_answers_iff h, fun rounds hrounds r hr => ?_⟩
  rw [doWait_eq hvalid] at hr
  obtain ⟨x, hx, hgives⟩ := waitLoop_gives rounds hr
  obtain ⟨hwf, hseen⟩ := hrounds x hx
  exact ⟨x, hx, _, (scan_answers_iff hwf).2 hseen, hgives⟩

/-! ### A child of another thread -/

def forkedByThread : TaskTree where
  task := update (update (update (update (fun _ => none)
    1 (some ⟨1, none, [10], 0, false, 0, false, 0⟩))
    10 (some ⟨10, some 1, [11], 5, false, 0, false, 0⟩))
    11 (some ⟨10, some 10, [20], 5, false, 0, false, 0⟩))
    20 (some ⟨20, some 11, [], 5, true, 0x700, false, 0⟩)
  group := update (update (update (fun _ => none)
    1 (some ⟨1, [1], 1, false, false, false, 0⟩))
    10 (some ⟨10, [10, 11], 10, false, false, false, 0⟩))
    20 (some ⟨20, [20], 10, false, false, false, 0⟩)

lemma forkedByThread_task {p : ℕ} {t : WaitTask} (h : forkedByThread.task p = some t) :
    p = 1 ∧ t = ⟨1, none, [10], 0, false, 0, false, 0⟩ ∨
    p = 10 ∧ t = ⟨10, some 1, [11], 5, false, 0, false, 0⟩ ∨
    p = 11 ∧ t = ⟨10, some 10, [20], 5, false, 0, false, 0⟩ ∨
    p = 20 ∧ t = ⟨20, some 11, [], 5, true, 0x700, false, 0⟩ := by
  simp only [forkedByThread, update_apply] at h
  split_ifs at h with h20 h11 h10 h1
  · exact .inr (.inr (.inr ⟨h20, (Option.some.inj h).symm⟩))
  · exact .inr (.inr (.inl ⟨h11, (Option.some.inj h).symm⟩))
  · exact .inr (.inl ⟨h10, (Option.some.inj h).symm⟩)
  · exact .inl ⟨h1, (Option.some.inj h).symm⟩

lemma forkedByThread_wf {current : ℕ} (hcurrent : current = 10 ∨ current = 11) :
    forkedByThread.Wf current := by
  refine ⟨fun p t ht c => ⟨fun hc => ?_, ?_⟩, fun p t ht => ?_, ?_⟩
  · obtain ⟨rfl, rfl⟩ | ⟨rfl, rfl⟩ | ⟨rfl, rfl⟩ | ⟨rfl, rfl⟩ := forkedByThread_task ht
    · obtain rfl := List.mem_singleton.1 hc
      exact ⟨_, rfl, rfl⟩
    · obtain rfl := List.mem_singleton.1 hc
      exact ⟨_, rfl, rfl⟩
    · obtain rfl := List.mem_singleton.1 hc
      exact ⟨_, rfl, rfl⟩
    · cases hc
  · rintro ⟨k, hk, hparent⟩
    obtain ⟨rfl, rfl⟩ | ⟨rfl, rfl⟩ | ⟨rfl, rfl⟩ | ⟨rfl, rfl⟩ := forkedByThread_task hk
    · cases hparent
    all_goals
      obtain rfl := Option.some.inj hparent
      obtain rfl := Option.some.inj ht
      exact List.mem_singleton_self _
  · obtain ⟨rfl, rfl⟩ | ⟨rfl, rfl⟩ | ⟨rfl, rfl⟩ | ⟨rfl, rfl⟩ := forkedByThread_task ht
    all_goals exact ⟨_, rfl⟩
  · obtain rfl | rfl := hcurrent
    all_goals exact ⟨_, _, rfl, rfl, by decide⟩

theorem wait_finds_children_forkedByThread :
    ValidWait 0 (wexited ||| wnohang) ∧
    (forkedByThread.Answers 11 .all (wexited ||| wnohang)
        (forkedByThread.scan 11 (wexited ||| wnohang) .all) ↔
      forkedByThread.Seen 11 (wexited ||| wnohang) .all) ∧
    (forkedByThread.Seen 11 (wexited ||| wnohang) .all ∧
      ∃ r, doWait 11 0 0 (wexited ||| wnohang) [(forkedByThread, false)] = some r ∧
        ∃ scan : WaitScan,
          forkedByThread.Answers 11 .all (wexited ||| wnohang) scan ∧ scan.Gives r) := by
  have hvalid : ValidWait 0 (wexited ||| wnohang) := ⟨by decide, by decide, by decide⟩
  have hwf := forkedByThread_wf (.inr rfl : 11 = 10 ∨ 11 = 11)
  have hboth := wait_finds_children 11 0 0 (wexited ||| wnohang) hvalid
  have heq : requested 0 0 = .all := rfl
  rw [heq] at hboth
  have hanswers : forkedByThread.Answers 11 .all (wexited ||| wnohang)
      (forkedByThread.scan 11 (wexited ||| wnohang) .all) := ⟨⟨by decide +kernel, by decide +kernel⟩, rfl⟩
  have hseen := (hboth.1 _ hwf).1 hanswers
  refine ⟨hvalid, hboth.1 _ hwf, hseen, _, rfl, ?_⟩
  obtain ⟨x, hx, scan, hscan⟩ := hboth.2 [(forkedByThread, false)]
    (fun x hx => by obtain rfl := List.mem_singleton.1 hx; exact ⟨hwf, hseen⟩) _ rfl
  obtain rfl := List.mem_singleton.1 hx
  exact ⟨scan, hscan⟩

/-- The first thread of process 10 waits for any child and is told that there is none, and waits
for 20 and gets it. -/
theorem forkedByThread_not_answered :
    doWait 10 0 0 (wexited ||| wnohang) [(forkedByThread, false)] = some (.error (-10)) ∧
    (∃ uid after, doWait 10 1 20 (wexited ||| wnohang) [(forkedByThread, false)] =
      some (.found 20 uid ⟨0x700, false⟩ after)) ∧
    ¬ ∀ (s : TaskTree) (current : ℕ) (w : WaitFor) (options : WaitOptions), s.Wf current →
      s.Answers current w options (s.scan current options w) := by
  refine ⟨rfl, ⟨_, _, rfl⟩, fun h => ?_⟩
  have hno : ∀ p, ¬ forkedByThread.Eligible 10 .all p :=
    h forkedByThread 10 .all wexited (forkedByThread_wf (.inl rfl))
  exact hno 20 ⟨by decide +kernel, by decide +kernel⟩

end ShellBox
