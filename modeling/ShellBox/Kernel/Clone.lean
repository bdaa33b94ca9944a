import ShellBox.Kernel.ProcessGroups

/-!
# Failed clones

`sys_clone` makes a task and then goes through the tables of the parent: each is shared or copied,
and when a step fails the ones before it are undone behind labels that fall through to each other.
The last step writes the number of the child to the addresses the caller gives.

What a host allocation gives is a parameter. A page that is not shared belongs to one address
space: `fork` copies its contents.
-/

namespace ShellBox

open Function

abbrev CloneFlags := BitVec 32

def csignal : CloneFlags := 0xff
def cloneVm : CloneFlags := 0x100
def cloneFs : CloneFlags := 0x200
def cloneFiles : CloneFlags := 0x400
def cloneSighand : CloneFlags := 0x800
def cloneVfork : CloneFlags := 0x4000
def cloneThread : CloneFlags := 0x10000
def cloneSysvsem : CloneFlags := 0x40000
def cloneSettls : CloneFlags := 0x80000
def cloneParentSettid : CloneFlags := 0x100000
def cloneChildCleartid : CloneFlags := 0x200000
def cloneDetached : CloneFlags := 0x400000
def cloneChildSettid : CloneFlags := 0x1000000

def implementedFlags : CloneFlags :=
  cloneVm ||| cloneFiles ||| cloneFs ||| cloneSighand ||| cloneSysvsem ||| cloneVfork |||
    cloneThread ||| cloneSettls ||| cloneChildSettid ||| cloneParentSettid |||
    cloneChildCleartid ||| cloneDetached

def hasClone (flags flag : CloneFlags) : Bool := flags &&& flag ≠ 0

structure ClonePage where
  writable : Bool
  shared : Option ℕ
  deriving DecidableEq

/-- `struct mm` -/
structure CloneMm where
  refcount : ℕ
  exefile : ℕ
  page : ℕ → Option ClonePage

/-- `struct fdtable` -/
structure CloneFiles where
  refcount : ℕ
  files : List (Option ℕ)

/-- `struct fs_info` -/
structure CloneFs where
  refcount : ℕ
  pwd : ℕ
  root : ℕ

/-- `struct tgroup` -/
structure CloneGroup where
  leader : ℕ
  threads : List ℕ
  tty : Option ℕ
  itimer : Option ℕ
  posixTimers : List ℕ

/-- `struct task`, by its pid. -/
structure CloneTask where
  parent : Option ℕ
  children : List ℕ
  mm : ℕ
  files : ℕ
  fs : ℕ
  sighand : ℕ
  group : ℕ

/-- The tasks and the tables they refer to, with their reference counts; a file description whose
count is zero is closed. `curPid` is the number that was given out last. -/
@[ext] structure CloneWorld where
  curPid : ℕ
  task : ℕ → Option CloneTask
  session : ℕ → List ℕ
  pgroup : ℕ → List ℕ
  group : ℕ → Option CloneGroup
  tty : ℕ → ℕ
  mm : ℕ → Option CloneMm
  files : ℕ → Option CloneFiles
  fs : ℕ → Option CloneFs
  sighand : ℕ → Option ℕ
  fd : ℕ → ℕ
  closed : List ℕ

inductive MemCell
  | own (mm addr : ℕ)
  | shared (page offset : ℕ)
  deriving DecidableEq

abbrev CloneMemory := MemCell → ℕ

/-- What the host's `malloc` gives on the way: an address, or nothing. `mmInner` and `fsInfo` are
the allocations whose failure is not noticed. -/
structure CloneAlloc where
  task : Bool
  mm : Option ℕ
  mmInner : Bool
  files : Option ℕ
  fs : Option ℕ
  sighand : Option ℕ
  group : Option ℕ

inductive CloneResult
  | ok (pid : ℕ)
  | error (e : ℤ)
  /-- A null pointer is followed. -/
  | crash
  /-- There is no free pid, and the search goes on. -/
  | hang
  deriving DecidableEq

namespace CloneWorld

variable (w : CloneWorld)

def fdRetain (f : ℕ) : CloneWorld := { w with fd := update w.fd f (w.fd f + 1) }

/-- `fd_close`: the last reference closes the description. -/
def fdClose (f : ℕ) : CloneWorld :=
  { w with
    fd := update w.fd f (w.fd f - 1)
    closed := if w.fd f = 1 then f :: w.closed else w.closed }

def retainAll (fs : List ℕ) : CloneWorld := fs.foldl fdRetain w
def closeAll (fs : List ℕ) : CloneWorld := fs.foldl fdClose w

def mmRetain (id : ℕ) : CloneWorld :=
  { w with mm := update w.mm id ((w.mm id).map fun m => { m with refcount := m.refcount + 1 }) }

def mmRelease (id : ℕ) : CloneWorld :=
  match w.mm id with
  | none => w
  | some m =>
    if m.refcount = 1 then { w.fdClose m.exefile with mm := update w.mm id none }
    else { w with mm := update w.mm id (some { m with refcount := m.refcount - 1 }) }

/-- The address space that `mm_copy` makes at `new`. -/
def mmCopy (old new : ℕ) : CloneWorld :=
  match w.mm old with
  | none => w
  | some m => { w.fdRetain m.exefile with mm := update w.mm new (some { m with refcount := 1 }) }

def filesRetain (id : ℕ) : CloneWorld :=
  { w with files := update w.files id ((w.files id).map fun t =>
      { t with refcount := t.refcount + 1 }) }

def fdtableRelease (id : ℕ) : CloneWorld :=
  match w.files id with
  | none => w
  | some t =>
    if t.refcount = 1 then
      { w.closeAll (t.files.filterMap fun f => f) with files := update w.files id none }
    else { w with files := update w.files id (some { t with refcount := t.refcount - 1 }) }

def fdtableCopy (old new : ℕ) : CloneWorld :=
  match w.files old with
  | none => w
  | some t =>
    { w.retainAll (t.files.filterMap fun f => f) with
      files := update w.files new (some { t with refcount := 1 }) }

def fsRetain (id : ℕ) : CloneWorld :=
  { w with fs := update w.fs id ((w.fs id).map fun t => { t with refcount := t.refcount + 1 }) }

def fsInfoRelease (id : ℕ) : CloneWorld :=
  match w.fs id with
  | none => w
  | some t =>
    if t.refcount = 1 then { w.closeAll [t.pwd, t.root] with fs := update w.fs id none }
    else { w with fs := update w.fs id (some { t with refcount := t.refcount - 1 }) }

def fsInfoCopy (old new : ℕ) : CloneWorld :=
  match w.fs old with
  | none => w
  | some t =>
    { w.retainAll [t.pwd, t.root] with fs := update w.fs new (some { t with refcount := 1 }) }

def sighandRetain (id : ℕ) : CloneWorld :=
  { w with sighand := update w.sighand id ((w.sighand id).map (· + 1)) }

def sighandRelease (id : ℕ) : CloneWorld :=
  match w.sighand id with
  | none => w
  | some n => { w with sighand := update w.sighand id (if n = 1 then none else some (n - 1)) }

def sighandCopy (new : ℕ) : CloneWorld := { w with sighand := update w.sighand new (some 1) }

/-- `tgroup_copy`, for the leader `pid`. -/
def tgroupCopy (old new pid : ℕ) : CloneWorld :=
  match w.group old with
  | none => w
  | some g =>
    { w with
      group := update w.group new (some { g with leader := pid, threads := [], itimer := none })
      pgroup := fun p => insertBehind old new (w.pgroup p)
      session := fun p => insertBehind old new (w.session p)
      tty := match g.tty with
        | some t => update w.tty t (w.tty t + 1)
        | none => w.tty }

def tgroupFree (id : ℕ) : CloneWorld :=
  match w.group id with
  | none => w
  | some g =>
    { w with
      group := update w.group id none
      pgroup := fun p => (w.pgroup p).erase id
      session := fun p => (w.session p).erase id
      tty := match g.tty with
        | some t => update w.tty t (w.tty t - 1)
        | none => w.tty }

def setThreads (id : ℕ) (f : List ℕ → List ℕ) : CloneWorld :=
  { w with group := update w.group id ((w.group id).map fun g =>
      { g with threads := f g.threads }) }

def setChildren (p : ℕ) (f : List ℕ → List ℕ) : CloneWorld :=
  { w with task := update w.task p ((w.task p).map fun t =>
      { t with children := f t.children }) }

def pidEmpty (p : ℕ) : Bool := (w.task p).isNone ∧ w.session p = [] ∧ w.pgroup p = []

/-- The search of `task_create_`. -/
def nextPid : Option ℕ :=
  ((List.range maxPid).map fun i => (w.curPid + i) % maxPid + 1).find? w.pidEmpty

/-- `task_create_`, with the pid. -/
def taskCreate (current pid : ℕ) : CloneWorld :=
  { w.setChildren current (pid :: ·) with
    task := update (w.setChildren current (pid :: ·)).task pid
      ((w.task current).map fun t => { t with parent := some current, children := [] }) }

def taskDestroy (pid : ℕ) : CloneWorld :=
  match (w.task pid).bind CloneTask.parent with
  | some parent =>
    { w.setChildren parent (·.erase pid) with
      task := update (w.setChildren parent (·.erase pid)).task pid none }
  | none => { w with task := update w.task pid none }

/-! ### The numbers written to memory -/

def cellAt (id addr : ℕ) : Option MemCell :=
  match (w.mm id).bind fun m => m.page (addr / 4096) with
  | some p =>
    if p.writable then
      match p.shared with
      | some page => some (.shared page (addr % 4096))
      | none => some (.own id addr)
    else none
  | none => none

def putFrom (id addr n : ℕ) : List ℕ → List (MemCell × ℕ) × Bool
  | [] => ([], false)
  | i :: is =>
    match w.cellAt id (addr + i) with
    | none => ([], true)
    | some c => ((c, n / 256 ^ i % 256) :: (putFrom id addr n is).1, (putFrom id addr n is).2)

/-- `user_put`. The loop does not run where the end of the number is past the last address. -/
def putCells (id addr n : ℕ) : List (MemCell × ℕ) × Bool :=
  if 2 ^ 64 ≤ addr + 4 then ([], false) else w.putFrom id addr n [0, 1, 2, 3]

/-- The bytes written by `copy_task`, in order, and whether an address faults. -/
def tidCells (flags : CloneFlags) (mm childMm ptid ctid pid : ℕ) : List (MemCell × ℕ) × Bool :=
  let child :=
    if hasClone flags cloneChildSettid then w.putCells childMm ctid pid else ([], false)
  if child.2 then child
  else
    let parent :=
      if hasClone flags cloneParentSettid then w.putCells mm ptid pid else ([], false)
    (child.1 ++ parent.1, parent.2)

end CloneWorld

def CloneMemory.write (mem : CloneMemory) (cells : List (MemCell × ℕ)) : CloneMemory :=
  cells.foldl (fun mem c => update mem c.1 c.2) mem

def CloneMemory.copy (mem : CloneMemory) (old new : ℕ) : CloneMemory
  | .own mm addr => if mm = new then mem (.own old addr) else mem (.own mm addr)
  | .shared page offset => mem (.shared page offset)

/-! ### `copy_task` -/

/-- What a step that shares or copies a table comes to: the table of the child, or an error. -/
inductive CloneStep
  | got (id : ℕ) (w : CloneWorld)
  | error (e : ℤ)
  | crash

namespace CloneWorld

variable (w : CloneWorld) (t : CloneTask) (flags : CloneFlags) (alloc : CloneAlloc)

def stepMm : CloneStep :=
  if hasClone flags cloneVm then .got t.mm (w.mmRetain t.mm)
  else
    match alloc.mm with
    | none => .error (-12)
    | some new => if alloc.mmInner then .got new (w.mmCopy t.mm new) else .crash

def stepFiles : CloneStep :=
  if hasClone flags cloneFiles then .got t.files (w.filesRetain t.files)
  else
    match alloc.files with
    | none => .error (-12)
    | some new => .got new (w.fdtableCopy t.files new)

/-- `fs_info_copy` does not look at what `fs_info_new` gives. -/
def stepFs : CloneStep :=
  if hasClone flags cloneFs then .got t.fs (w.fsRetain t.fs)
  else
    match alloc.fs with
    | none => .crash
    | some new => .got new (w.fsInfoCopy t.fs new)

def stepSighand : CloneStep :=
  if hasClone flags cloneSighand then .got t.sighand (w.sighandRetain t.sighand)
  else
    match alloc.sighand with
    | none => .error (-12)
    | some new => .got new (w.sighandCopy new)

def stepGroup (pid : ℕ) : CloneStep :=
  if hasClone flags cloneThread then .got t.group (w.setThreads t.group (pid :: ·))
  else
    match alloc.group with
    | none => .error (-12)
    | some new => .got new ((w.tgroupCopy t.group new pid).setThreads new (pid :: ·))

/-- `fail_unlink_group`, up to the next label. -/
def failUnlinkGroup (group pid : ℕ) : CloneWorld :=
  let w := w.setThreads group (·.erase pid)
  if hasClone flags cloneThread then w else w.tgroupFree group

/-- `copy_task`. The labels `fail_free_sighand` to `fail_free_mem` fall through to each other. -/
def copyTask (mem : CloneMemory) (ptid ctid pid : ℕ) : CloneResult × CloneWorld × CloneMemory :=
  match w.stepMm t flags alloc with
  | .error e => (.error e, w, mem)
  | .crash => (.crash, w, mem)
  | .got mm w =>
    let mem := if hasClone flags cloneVm then mem else mem.copy t.mm mm
    let failFreeMem (w : CloneWorld) := w.mmRelease mm
    match w.stepFiles t flags alloc with
    | .error e => (.error e, failFreeMem w, mem)
    | .crash => (.crash, w, mem)
    | .got files w =>
      let failFreeFiles (w : CloneWorld) := failFreeMem (w.fdtableRelease files)
      match w.stepFs t flags alloc with
      | .error e => (.error e, failFreeFiles w, mem)
      | .crash => (.crash, w, mem)
      | .got fs w =>
        let failFreeFs (w : CloneWorld) := failFreeFiles (w.fsInfoRelease fs)
        match w.stepSighand t flags alloc with
        | .error e => (.error e, failFreeFs w, mem)
        | .crash => (.crash, w, mem)
        | .got sighand w =>
          let failFreeSighand (w : CloneWorld) := failFreeFs (w.sighandRelease sighand)
          match w.stepGroup t flags alloc pid with
          | .error e => (.error e, failFreeSighand w, mem)
          | .crash => (.crash, w, mem)
          | .got group w =>
            let tids := w.tidCells flags t.mm mm ptid ctid pid
            let mem := mem.write tids.1
            if tids.2 then (.error (-14), failFreeSighand (w.failUnlinkGroup flags group pid), mem)
            else
              (.ok pid, { w with task := update w.task pid ((w.task pid).map fun k =>
                { k with mm, files, fs, sighand, group }) }, mem)

/-- `sys_clone`, up to the start of the child. -/
def sysClone (mem : CloneMemory) (current : ℕ) (guard : Option ℤ) (ptid ctid : ℕ) :
    CloneResult × CloneWorld × CloneMemory :=
  if flags &&& ~~~csignal &&& ~~~implementedFlags ≠ 0 then (.error (-22), w, mem)
  else if hasClone flags cloneSighand ∧ ¬ hasClone flags cloneVm then (.error (-22), w, mem)
  else if hasClone flags cloneThread ∧ ¬ hasClone flags cloneSighand then (.error (-22), w, mem)
  else
    match (if hasClone flags cloneThread then none else guard.filter (· < 0)) with
    | some err => (.error err, w, mem)
    | none =>
      match w.nextPid, w.task current with
      | some pid, some t =>
        let w := { w with curPid := pid }
        if ¬ alloc.task then (.error (-12), w, mem)
        else
          let r := (w.taskCreate current pid).copyTask t flags alloc mem ptid ctid pid
          match r.1 with
          | .error _ => (r.1, r.2.1.taskDestroy pid, r.2.2)
          | _ => r
      | _, _ => (.hang, w, mem)

end CloneWorld

lemma erase_insertBehind {ι : Type*} [DecidableEq ι] {old new : ι} {l : List ι} (h : new ∉ l) :
    (insertBehind old new l).erase new = l := by
  induction l with
  | nil => rfl
  | cons x l ih =>
    rw [List.mem_cons, not_or] at h
    unfold insertBehind
    split_ifs
    · rw [List.erase_cons_tail (by simpa using Ne.symm h.1), List.erase_cons_head]
    · rw [List.erase_cons_tail (by simpa using Ne.symm h.1), ih h.2]

namespace CloneWorld

variable {w w₁ : CloneWorld} {t : CloneTask} {flags : CloneFlags} {alloc : CloneAlloc}

/-! ### File descriptions -/

lemma retainAll_eq (w : CloneWorld) (fs : List ℕ) :
    w.retainAll fs = { w with fd := fun f => w.fd f + fs.count f } := by
  induction fs generalizing w with
  | nil => rfl
  | cons f fs ih =>
    rw [retainAll, List.foldl_cons]
    refine (ih _).trans ?_
    simp only [fdRetain]
    congr 1
    funext g
    by_cases hg : g = f
    · rw [hg, update_self, List.count_cons_self]
      ac_rfl
    · rw [update_of_ne hg, List.count_cons_of_ne (Ne.symm hg)]

lemma closeAll_eq (fs : List ℕ) (h : ∀ f ∈ fs, fs.count f < w.fd f) :
    w.closeAll fs = { w with fd := fun f => w.fd f - fs.count f } := by
  induction fs generalizing w with
  | nil => rfl
  | cons f fs ih =>
    have hf := h f List.mem_cons_self
    rw [List.count_cons_self] at hf
    rw [closeAll, List.foldl_cons]
    refine (ih ?_).trans ?_
    · intro g hg
      have hlt := h g (List.mem_cons_of_mem _ hg)
      simp only [fdClose]
      by_cases hgf : g = f
      · rw [hgf, update_self]
        omega
      · rw [update_of_ne hgf]
        rwa [List.count_cons_of_ne (Ne.symm hgf)] at hlt
    · have hone : w.fd f ≠ 1 := by omega
      simp only [fdClose, hone, if_false]
      congr 1
      funext g
      by_cases hg : g = f
      · rw [hg, update_self, List.count_cons_self]
        omega
      · rw [update_of_ne hg, List.count_cons_of_ne (Ne.symm hg)]

lemma closeAll_retained {fs : List ℕ} (h : ∀ f ∈ fs, 1 ≤ w.fd f)
    (hfd : w₁.fd = fun f => w.fd f + fs.count f) :
    w₁.closeAll fs = { w₁ with fd := w.fd } := by
  rw [closeAll_eq]
  · simp only [hfd, Nat.add_sub_cancel]
  · intro f hf
    have hone := h f hf
    simp only [hfd]
    omega

lemma fdClose_eq_closeAll (w : CloneWorld) (f : ℕ) : w.fdClose f = w.closeAll [f] := rfl

lemma fdRetain_eq_retainAll (w : CloneWorld) (f : ℕ) : w.fdRetain f = w.retainAll [f] := rfl

/-! ### What each step of `copy_task` does, and that it is undone -/

structure Keeps (w w₁ : CloneWorld) : Prop where
  task : w₁.task = w.task
  group : w₁.group = w.group
  session : w₁.session = w.session
  pgroup : w₁.pgroup = w.pgroup
  fd : ∀ f, w.fd f ≤ w₁.fd f

lemma mmRelease_shared {id : ℕ} {m : CloneMm} (hm : w.mm id = some m) (hne : m.refcount ≠ 1) :
    w.mmRelease id =
      { w with mm := update w.mm id (some { m with refcount := m.refcount - 1 }) } := by
  simp only [mmRelease, hm, hne, if_false]

lemma mmRelease_last {id : ℕ} {m : CloneMm} (hm : w.mm id = some m) (hone : m.refcount = 1) :
    w.mmRelease id = { w.closeAll [m.exefile] with mm := update w.mm id none } := by
  simp only [mmRelease, hm, hone, if_true, fdClose_eq_closeAll]

lemma fdtableRelease_shared {id : ℕ} {k : CloneFiles} (hk : w.files id = some k)
    (hne : k.refcount ≠ 1) : w.fdtableRelease id =
      { w with files := update w.files id (some { k with refcount := k.refcount - 1 }) } := by
  simp only [fdtableRelease, hk, hne, if_false]

lemma fdtableRelease_last {id : ℕ} {k : CloneFiles} (hk : w.files id = some k)
    (hone : k.refcount = 1) : w.fdtableRelease id =
      { w.closeAll (k.files.filterMap fun f => f) with files := update w.files id none } := by
  simp only [fdtableRelease, hk, hone, if_true]

lemma fsInfoRelease_shared {id : ℕ} {k : CloneFs} (hk : w.fs id = some k)
    (hne : k.refcount ≠ 1) : w.fsInfoRelease id =
      { w with fs := update w.fs id (some { k with refcount := k.refcount - 1 }) } := by
  simp only [fsInfoRelease, hk, hne, if_false]

lemma fsInfoRelease_last {id : ℕ} {k : CloneFs} (hk : w.fs id = some k) (hone : k.refcount = 1) :
    w.fsInfoRelease id = { w.closeAll [k.pwd, k.root] with fs := update w.fs id none } := by
  simp only [fsInfoRelease, hk, hone, if_true]

lemma stepMm_got {id : ℕ} {m : CloneMm} (hm : w.mm t.mm = some m) (hcount : 1 ≤ m.refcount)
    (hexe : 1 ≤ w.fd m.exefile) (hnew : ∀ a, alloc.mm = some a → w.mm a = none)
    (h : w.stepMm t flags alloc = .got id w₁) :
    w₁.mmRelease id = w ∧ w.Keeps w₁ ∧ w₁.files = w.files ∧ w₁.fs = w.fs ∧
      w₁.sighand = w.sighand := by
  unfold stepMm at h
  by_cases hvm : hasClone flags cloneVm = true
  · rw [if_pos hvm] at h
    obtain ⟨rfl, rfl⟩ := CloneStep.got.inj h
    have hmm : (w.mmRetain t.mm).mm t.mm = some { m with refcount := m.refcount + 1 } := by
      simp [mmRetain, hm]
    have hne : m.refcount + 1 ≠ 1 := by omega
    refine ⟨?_, ⟨rfl, rfl, rfl, rfl, fun _ => le_rfl⟩, rfl, rfl, rfl⟩
    rw [mmRelease_shared hmm hne]
    simp only [mmRetain, update_idem, Nat.add_sub_cancel]
    rw [show some { m with refcount := m.refcount } = w.mm t.mm from hm.symm, update_eq_self]
  · rw [if_neg hvm] at h
    cases ha : alloc.mm with
    | none => simp [ha] at h
    | some new =>
      simp only [ha] at h
      split_ifs at h
      obtain ⟨rfl, rfl⟩ := CloneStep.got.inj h
      have hcopy : w.mmCopy t.mm new = { w.retainAll [m.exefile] with
          mm := update w.mm new (some { m with refcount := 1 }) } := by
        simp only [mmCopy, hm, fdRetain_eq_retainAll]
      rw [hcopy, retainAll_eq]
      refine ⟨?_, ⟨rfl, rfl, rfl, rfl, fun f => Nat.le_add_right _ _⟩, rfl, rfl, rfl⟩
      rw [mmRelease_last (update_self _ _ _) rfl, closeAll_retained (w := w) (by simpa) rfl]
      simp only [update_idem]
      rw [← hnew new ha, update_eq_self]

lemma stepFiles_got {id : ℕ} {k : CloneFiles} (hk : w.files t.files = some k)
    (hcount : 1 ≤ k.refcount) (hopen : ∀ f ∈ k.files.filterMap fun f => f, 1 ≤ w.fd f)
    (hnew : ∀ a, alloc.files = some a → w.files a = none)
    (h : w.stepFiles t flags alloc = .got id w₁) :
    w₁.fdtableRelease id = w ∧ w.Keeps w₁ ∧ w₁.mm = w.mm ∧ w₁.fs = w.fs ∧
      w₁.sighand = w.sighand := by
  unfold stepFiles at h
  split_ifs at h with hfiles
  · obtain ⟨rfl, rfl⟩ := CloneStep.got.inj h
    have hk' : (w.filesRetain t.files).files t.files =
        some { k with refcount := k.refcount + 1 } := by
      simp [filesRetain, hk]
    have hne : k.refcount + 1 ≠ 1 := by omega
    refine ⟨?_, ⟨rfl, rfl, rfl, rfl, fun _ => le_rfl⟩, rfl, rfl, rfl⟩
    rw [fdtableRelease_shared hk' hne]
    simp only [filesRetain, update_idem, Nat.add_sub_cancel]
    rw [show some { k with refcount := k.refcount } = w.files t.files from hk.symm, update_eq_self]
  · cases ha : alloc.files with
    | none => simp [ha] at h
    | some new =>
      simp only [ha] at h
      obtain ⟨rfl, rfl⟩ := CloneStep.got.inj h
      have hcopy : w.fdtableCopy t.files new =
          { w.retainAll (k.files.filterMap fun f => f) with
            files := update w.files new (some { k with refcount := 1 }) } := by
        simp only [fdtableCopy, hk]
      rw [hcopy, retainAll_eq]
      refine ⟨?_, ⟨rfl, rfl, rfl, rfl, fun f => Nat.le_add_right _ _⟩, rfl, rfl, rfl⟩
      rw [fdtableRelease_last (update_self _ _ _) rfl, closeAll_retained (w := w) hopen rfl]
      simp only [update_idem]
      rw [← hnew new ha, update_eq_self]

lemma stepFs_got {id : ℕ} {k : CloneFs} (hk : w.fs t.fs = some k) (hcount : 1 ≤ k.refcount)
    (hopen : ∀ f ∈ [k.pwd, k.root], 1 ≤ w.fd f)
    (hnew : ∀ a, alloc.fs = some a → w.fs a = none)
    (h : w.stepFs t flags alloc = .got id w₁) :
    w₁.fsInfoRelease id = w ∧ w.Keeps w₁ ∧ w₁.mm = w.mm ∧ w₁.sighand = w.sighand := by
  unfold stepFs at h
  split_ifs at h with hfs
  · obtain ⟨rfl, rfl⟩ := CloneStep.got.inj h
    have hk' : (w.fsRetain t.fs).fs t.fs = some { k with refcount := k.refcount + 1 } := by
      simp [fsRetain, hk]
    have hne : k.refcount + 1 ≠ 1 := by omega
    refine ⟨?_, ⟨rfl, rfl, rfl, rfl, fun _ => le_rfl⟩, rfl, rfl⟩
    rw [fsInfoRelease_shared hk' hne]
    simp only [fsRetain, update_idem, Nat.add_sub_cancel]
    rw [show some { k with refcount := k.refcount } = w.fs t.fs from hk.symm, update_eq_self]
  · cases ha : alloc.fs with
    | none => simp [ha] at h
    | some new =>
      simp only [ha] at h
      obtain ⟨rfl, rfl⟩ := CloneStep.got.inj h
      have hcopy : w.fsInfoCopy t.fs new = { w.retainAll [k.pwd, k.root] with
          fs := update w.fs new (some { k with refcount := 1 }) } := by
        simp only [fsInfoCopy, hk]
      rw [hcopy, retainAll_eq]
      refine ⟨?_, ⟨rfl, rfl, rfl, rfl, fun f => Nat.le_add_right _ _⟩, rfl, rfl⟩
      rw [fsInfoRelease_last (update_self _ _ _) rfl, closeAll_retained (w := w) hopen rfl]
      simp only [update_idem]
      rw [← hnew new ha, update_eq_self]

lemma stepSighand_got {id n : ℕ} (hn : w.sighand t.sighand = some n) (hcount : 1 ≤ n)
    (hnew : ∀ a, alloc.sighand = some a → w.sighand a = none)
    (h : w.stepSighand t flags alloc = .got id w₁) :
    w₁.sighandRelease id = w ∧ w.Keeps w₁ ∧ w₁.mm = w.mm := by
  unfold stepSighand at h
  split_ifs at h with hshare
  · obtain ⟨rfl, rfl⟩ := CloneStep.got.inj h
    have hne : n + 1 ≠ 1 := by omega
    refine ⟨?_, ⟨rfl, rfl, rfl, rfl, fun _ => le_rfl⟩, rfl⟩
    simp only [sighandRelease, sighandRetain, hn, Option.map_some, update_self, hne, if_false,
      update_idem, Nat.add_sub_cancel]
    rw [← hn, update_eq_self]
  · cases ha : alloc.sighand with
    | none => simp [ha] at h
    | some new =>
      simp only [ha] at h
      obtain ⟨rfl, rfl⟩ := CloneStep.got.inj h
      refine ⟨?_, ⟨rfl, rfl, rfl, rfl, fun _ => le_rfl⟩, rfl⟩
      simp only [sighandRelease, sighandCopy, update_self, if_true, update_idem]
      rw [← hnew new ha, update_eq_self]

lemma stepGroup_got {id pid : ℕ} {g : CloneGroup} (hg : w.group t.group = some g)
    (hnew : ∀ a, alloc.group = some a →
      w.group a = none ∧ ∀ p, a ∉ w.session p ∧ a ∉ w.pgroup p)
    (h : w.stepGroup t flags alloc pid = .got id w₁) :
    w₁.failUnlinkGroup flags id pid = w ∧ w₁.mm = w.mm := by
  unfold stepGroup at h
  split_ifs at h with hshare
  · obtain ⟨rfl, rfl⟩ := CloneStep.got.inj h
    refine ⟨?_, rfl⟩
    simp only [failUnlinkGroup, hshare, if_true, setThreads, hg, Option.map_some, update_self,
      List.erase_cons_head, update_idem]
    rw [← hg, update_eq_self]
  · cases ha : alloc.group with
    | none => simp [ha] at h
    | some new =>
      simp only [ha] at h
      obtain ⟨rfl, rfl⟩ := CloneStep.got.inj h
      obtain ⟨hfree, hlists⟩ := hnew new ha
      have hsession : (fun p => (insertBehind t.group new (w.session p)).erase new) = w.session :=
        funext fun p => erase_insertBehind (hlists p).1
      have hpgroup : (fun p => (insertBehind t.group new (w.pgroup p)).erase new) = w.pgroup :=
        funext fun p => erase_insertBehind (hlists p).2
      refine ⟨?_, by simp only [tgroupCopy, hg, setThreads]⟩
      simp only [failUnlinkGroup, hshare, Bool.false_eq_true, if_false, setThreads, tgroupCopy, hg,
        Option.map_some, update_self, List.erase_cons_head, update_idem, tgroupFree, hsession,
        hpgroup]
      rw [← hfree, update_eq_self]
      cases g.tty with
      | none => rfl
      | some tty => simp

lemma taskDestroy_taskCreate {current pid : ℕ} (ht : w.task current = some t)
    (hpid : w.task pid = none) : (w.taskCreate current pid).taskDestroy pid = w := by
  have hne : current ≠ pid := by
    rintro rfl
    rw [ht] at hpid
    cases hpid
  have hparent : ((w.taskCreate current pid).task pid).bind CloneTask.parent = some current := by
    simp [taskCreate, ht]
  unfold taskDestroy
  simp only [hparent]
  ext1
  case task =>
    funext p
    by_cases hp : p = pid
    · simp [hp, hpid]
    · by_cases hc : p = current
      · simp [taskCreate, setChildren, ht, hc, hne]
      · simp [taskCreate, setChildren, hp, hc]
  all_goals rfl

end CloneWorld

/-! ### What is written -/

def MemCell.relocate (new : ℕ) : MemCell → MemCell
  | .own _ addr => .own new addr
  | .shared page offset => .shared page offset

def MemCell.isShared : MemCell → Bool
  | .own _ _ => false
  | .shared _ _ => true

def lastWrite : List (MemCell × ℕ) → MemCell → Option ℕ
  | [], _ => none
  | x :: l, c => (lastWrite l c).or (if x.1 = c then some x.2 else none)

lemma lastWrite_append (l l' : List (MemCell × ℕ)) (c : MemCell) :
    lastWrite (l ++ l') c = (lastWrite l' c).or (lastWrite l c) := by
  induction l with
  | nil => simp [lastWrite]
  | cons x l ih => rw [List.cons_append, lastWrite, ih, lastWrite, Option.or_assoc]

lemma CloneMemory.write_apply (mem : CloneMemory) (l : List (MemCell × ℕ)) (c : MemCell) :
    mem.write l c = (lastWrite l c).getD (mem c) := by
  induction l generalizing mem with
  | nil => rfl
  | cons x l ih =>
    rw [CloneMemory.write, List.foldl_cons]
    refine (ih _).trans ?_
    rw [lastWrite]
    cases lastWrite l c with
    | some b => rfl
    | none =>
      by_cases hx : x.1 = c
      · simp [hx]
      · simp [hx, update_of_ne (Ne.symm hx)]

lemma lastWrite_relocate {new : ℕ} {c : MemCell} (hc : ∀ addr, c ≠ .own new addr)
    (l : List (MemCell × ℕ)) :
    lastWrite (l.map fun x => (x.1.relocate new, x.2)) c =
      lastWrite (l.filter fun x => x.1.isShared) c := by
  induction l with
  | nil => rfl
  | cons x l ih =>
    obtain ⟨d, b⟩ := x
    rw [List.map_cons, lastWrite, ih]
    cases d with
    | own mm addr =>
      rw [List.filter_cons_of_neg (by simp [MemCell.isShared])]
      simp [MemCell.relocate, Ne.symm (hc addr)]
    | shared page offset =>
      rw [List.filter_cons_of_pos rfl, lastWrite]
      rfl

namespace CloneWorld

variable {w w₁ : CloneWorld} {t : CloneTask} {flags : CloneFlags} {alloc : CloneAlloc}

lemma cellAt_congr {id : ℕ} (h : w₁.mm = w.mm) : w₁.cellAt id = w.cellAt id := by
  funext addr
  rw [cellAt, cellAt, h]

lemma putFrom_relocate {id id' : ℕ} {f : MemCell → MemCell}
    (h : ∀ addr, w₁.cellAt id' addr = (w.cellAt id addr).map f) (addr n : ℕ) (is : List ℕ) :
    w₁.putFrom id' addr n is =
      ((w.putFrom id addr n is).1.map fun x => (f x.1, x.2), (w.putFrom id addr n is).2) := by
  induction is with
  | nil => rfl
  | cons i is ih =>
    rw [putFrom, putFrom, h]
    cases w.cellAt id (addr + i) with
    | none => rfl
    | some c => simp [ih]

lemma putCells_relocate {id id' : ℕ} {f : MemCell → MemCell}
    (h : ∀ addr, w₁.cellAt id' addr = (w.cellAt id addr).map f) (addr n : ℕ) :
    w₁.putCells id' addr n =
      ((w.putCells id addr n).1.map fun x => (f x.1, x.2), (w.putCells id addr n).2) := by
  unfold putCells
  split_ifs
  · rfl
  · exact putFrom_relocate h addr n _

lemma cellAt_eq {id addr : ℕ} {c : MemCell} (h : w.cellAt id addr = some c) :
    (∃ a, c = .own id a) ∨ c.isShared = true := by
  unfold cellAt at h
  split at h
  · split_ifs at h
    split at h
    · obtain rfl := Option.some.inj h
      exact .inr rfl
    · obtain rfl := Option.some.inj h
      exact .inl ⟨_, rfl⟩
  · cases h

lemma mem_putFrom {id addr n : ℕ} {is : List ℕ} {x : MemCell × ℕ}
    (hx : x ∈ (w.putFrom id addr n is).1) : (∃ a, x.1 = .own id a) ∨ x.1.isShared = true := by
  induction is with
  | nil => cases hx
  | cons i is ih =>
    rw [putFrom] at hx
    cases hc : w.cellAt id (addr + i) with
    | none => simp [hc] at hx
    | some c =>
      simp only [hc, List.mem_cons] at hx
      obtain rfl | hx := hx
      · exact cellAt_eq hc
      · exact ih hx

lemma mem_putCells {id addr n : ℕ} {x : MemCell × ℕ} (hx : x ∈ (w.putCells id addr n).1) :
    (∃ a, x.1 = .own id a) ∨ x.1.isShared = true := by
  unfold putCells at hx
  split_ifs at hx
  · cases hx
  · exact mem_putFrom hx

lemma stepMm_cellAt {id : ℕ} {m : CloneMm} (hm : w.mm t.mm = some m)
    (hnew : ∀ a, alloc.mm = some a → w.mm a = none) (h : w.stepMm t flags alloc = .got id w₁) :
    (∀ addr, w₁.cellAt t.mm addr = w.cellAt t.mm addr) ∧
      (∀ addr, w₁.cellAt id addr = (w.cellAt t.mm addr).map (MemCell.relocate id)) ∧
      (hasClone flags cloneVm = true ∧ id = t.mm ∨
        hasClone flags cloneVm = false ∧ w.mm id = none) := by
  unfold stepMm at h
  by_cases hvm : hasClone flags cloneVm = true
  · rw [if_pos hvm] at h
    obtain ⟨rfl, rfl⟩ := CloneStep.got.inj h
    have hsame : ∀ addr, (w.mmRetain t.mm).cellAt t.mm addr = w.cellAt t.mm addr := by
      intro addr
      simp [cellAt, mmRetain, hm]
    refine ⟨hsame, fun addr => ?_, .inl ⟨hvm, rfl⟩⟩
    rw [hsame]
    cases hc : w.cellAt t.mm addr with
    | none => rfl
    | some c =>
      obtain ⟨a, rfl⟩ | hshared := cellAt_eq hc
      · rfl
      · cases c with
        | own mm a => cases hshared
        | shared page offset => rfl
  · rw [if_neg hvm] at h
    cases ha : alloc.mm with
    | none => simp [ha] at h
    | some new =>
      simp only [ha] at h
      split_ifs at h
      obtain ⟨rfl, rfl⟩ := CloneStep.got.inj h
      have hfree := hnew new ha
      have hne : t.mm ≠ new := by
        rintro heq
        rw [← heq, hm] at hfree
        cases hfree
      refine ⟨fun addr => ?_, fun addr => ?_, .inr ⟨by simpa using hvm, hfree⟩⟩
      · simp [cellAt, mmCopy, hm, hne]
      · simp only [cellAt, mmCopy, hm, update_self, Option.bind_some]
        cases m.page (addr / 4096) with
        | none => rfl
        | some p =>
          simp only
          split_ifs
          · cases p.shared <;> rfl
          · rfl

end CloneWorld

/-! ### When a clone leaves no trace -/

lemma mem_of_lastWrite {l : List (MemCell × ℕ)} {c : MemCell} {b : ℕ}
    (h : lastWrite l c = some b) : (c, b) ∈ l := by
  induction l with
  | nil => cases h
  | cons x l ih =>
    rw [lastWrite] at h
    cases hl : lastWrite l c with
    | some b' =>
      rw [hl, Option.some_or] at h
      exact List.mem_cons_of_mem _ (ih (hl.trans h))
    | none =>
      rw [hl, Option.none_or] at h
      split_ifs at h with hx
      obtain rfl := Option.some.inj h
      rw [← hx]
      exact List.mem_cons_self

namespace CloneAlloc

variable (alloc : CloneAlloc) (flags : CloneFlags)

def MmOk : Prop :=
  hasClone flags cloneVm = true ∨ alloc.mm.isSome = true ∧ alloc.mmInner = true

/-- An allocation inside `mm_copy` fails. -/
def MmCrash : Prop :=
  hasClone flags cloneVm = false ∧ alloc.mm.isSome = true ∧ alloc.mmInner = false

def FilesOk : Prop := hasClone flags cloneFiles = true ∨ alloc.files.isSome = true
def FsOk : Prop := hasClone flags cloneFs = true ∨ alloc.fs.isSome = true
def SighandOk : Prop := hasClone flags cloneSighand = true ∨ alloc.sighand.isSome = true
def GroupOk : Prop := hasClone flags cloneThread = true ∨ alloc.group.isSome = true

end CloneAlloc

namespace CloneWorld

def Live (w : CloneWorld) : MemCell → Prop
  | .own mm _ => (w.mm mm).isSome = true
  | .shared _ _ => True

/-- What a clone writes to memory that is there already, in order, and whether an address faults:
to the parent's memory with `CLONE_VM`, and else to shared pages only. -/
def tidVisible (w : CloneWorld) (t : CloneTask) (flags : CloneFlags) (ptid ctid pid : ℕ) :
    List (MemCell × ℕ) × Bool :=
  let child := if hasClone flags cloneChildSettid then w.putCells t.mm ctid pid else ([], false)
  let seen := if hasClone flags cloneVm then child.1 else child.1.filter fun x => x.1.isShared
  if child.2 then (seen, true)
  else
    let parent := if hasClone flags cloneParentSettid then w.putCells t.mm ptid pid else ([], false)
    (seen ++ parent.1, parent.2)

/-- The tables of the parent are there, with the references that it holds, and what the host
allocates is not. -/
structure Ready (w : CloneWorld) (t : CloneTask) (alloc : CloneAlloc) : Prop where
  mm : ∃ m, w.mm t.mm = some m ∧ 1 ≤ m.refcount ∧ 1 ≤ w.fd m.exefile
  files : ∃ k, w.files t.files = some k ∧ 1 ≤ k.refcount ∧
    ∀ f ∈ k.files.filterMap fun f => f, 1 ≤ w.fd f
  fs : ∃ k, w.fs t.fs = some k ∧ 1 ≤ k.refcount ∧ ∀ f ∈ [k.pwd, k.root], 1 ≤ w.fd f
  sighand : ∃ n, w.sighand t.sighand = some n ∧ 1 ≤ n
  group : ∃ g, w.group t.group = some g
  newMm : ∀ a, alloc.mm = some a → w.mm a = none
  newFiles : ∀ a, alloc.files = some a → w.files a = none
  newFs : ∀ a, alloc.fs = some a → w.fs a = none
  newSighand : ∀ a, alloc.sighand = some a → w.sighand a = none
  newGroup : ∀ a, alloc.group = some a →
    w.group a = none ∧ ∀ p, a ∉ w.session p ∧ a ∉ w.pgroup p

variable {w w₁ : CloneWorld} {t : CloneTask} {flags : CloneFlags} {alloc : CloneAlloc}
  {mem : CloneMemory} {ptid ctid pid : ℕ}

lemma stepMm_outcome (w : CloneWorld) (t : CloneTask) (flags : CloneFlags) (alloc : CloneAlloc) :
    (∃ id w₁, w.stepMm t flags alloc = .got id w₁ ∧ alloc.MmOk flags ∧ ¬ alloc.MmCrash flags) ∨
      w.stepMm t flags alloc = .error (-12) ∧ ¬ alloc.MmOk flags ∧ ¬ alloc.MmCrash flags ∨
      w.stepMm t flags alloc = .crash ∧ alloc.MmCrash flags := by
  unfold stepMm CloneAlloc.MmOk CloneAlloc.MmCrash
  cases hasClone flags cloneVm <;> cases alloc.mm <;> cases alloc.mmInner <;> simp

lemma stepFiles_outcome (w : CloneWorld) (t : CloneTask) (flags : CloneFlags)
    (alloc : CloneAlloc) :
    (∃ id w₁, w.stepFiles t flags alloc = .got id w₁ ∧ alloc.FilesOk flags) ∨
      w.stepFiles t flags alloc = .error (-12) ∧ ¬ alloc.FilesOk flags := by
  unfold stepFiles CloneAlloc.FilesOk
  cases hasClone flags cloneFiles <;> cases alloc.files <;> simp

lemma stepFs_outcome (w : CloneWorld) (t : CloneTask) (flags : CloneFlags) (alloc : CloneAlloc) :
    (∃ id w₁, w.stepFs t flags alloc = .got id w₁ ∧ alloc.FsOk flags) ∨
      w.stepFs t flags alloc = .crash ∧ ¬ alloc.FsOk flags := by
  unfold stepFs CloneAlloc.FsOk
  cases hasClone flags cloneFs <;> cases alloc.fs <;> simp

lemma stepSighand_outcome (w : CloneWorld) (t : CloneTask) (flags : CloneFlags)
    (alloc : CloneAlloc) :
    (∃ id w₁, w.stepSighand t flags alloc = .got id w₁ ∧ alloc.SighandOk flags) ∨
      w.stepSighand t flags alloc = .error (-12) ∧ ¬ alloc.SighandOk flags := by
  unfold stepSighand CloneAlloc.SighandOk
  cases hasClone flags cloneSighand <;> cases alloc.sighand <;> simp

lemma stepGroup_outcome (w : CloneWorld) (t : CloneTask) (flags : CloneFlags)
    (alloc : CloneAlloc) (pid : ℕ) :
    (∃ id w₁, w.stepGroup t flags alloc pid = .got id w₁ ∧ alloc.GroupOk flags) ∨
      w.stepGroup t flags alloc pid = .error (-12) ∧ ¬ alloc.GroupOk flags := by
  unfold stepGroup CloneAlloc.GroupOk
  cases hasClone flags cloneThread <;> cases alloc.group <;> simp

lemma tidCells_visible (ptid ctid pid : ℕ) {id : ℕ}
    (hown : ∀ addr, w₁.cellAt t.mm addr = w.cellAt t.mm addr)
    (hchild : ∀ addr, w₁.cellAt id addr = (w.cellAt t.mm addr).map (MemCell.relocate id))
    (hid : hasClone flags cloneVm = true ∧ id = t.mm ∨
      hasClone flags cloneVm = false ∧ w.mm id = none) :
    (w₁.tidCells flags t.mm id ptid ctid pid).2 = (w.tidVisible t flags ptid ctid pid).2 ∧
      ∀ c, w.Live c → lastWrite (w₁.tidCells flags t.mm id ptid ctid pid).1 c =
        lastWrite (w.tidVisible t flags ptid ctid pid).1 c := by
  have hparent : w₁.putCells t.mm ptid pid = w.putCells t.mm ptid pid := by
    have hmap : ∀ addr, w₁.cellAt t.mm addr = (w.cellAt t.mm addr).map fun c => c := by
      simpa using hown
    rw [putCells_relocate hmap]
    simp
  have hput := putCells_relocate hchild ctid pid
  -- The child's own bytes are not there yet.
  have hseen : ∀ c, w.Live c →
      lastWrite ((w.putCells t.mm ctid pid).1.map fun x => (x.1.relocate id, x.2)) c =
        lastWrite (if hasClone flags cloneVm then (w.putCells t.mm ctid pid).1
          else (w.putCells t.mm ctid pid).1.filter fun x => x.1.isShared) c := by
    intro c hc
    obtain ⟨hvm, rfl⟩ | ⟨hvm, hnone⟩ := hid
    · rw [if_pos hvm]
      congr 1
      refine (List.map_congr_left fun x hx => ?_).trans (List.map_id _)
      obtain ⟨d, b⟩ := x
      obtain ⟨addr, hd⟩ | hshared := mem_putCells hx
      · obtain rfl : d = .own t.mm addr := hd
        rfl
      · cases d with
        | own mm addr => cases hshared
        | shared page offset => rfl
    · rw [hvm]
      refine lastWrite_relocate (fun addr => ?_) _
      rintro rfl
      simp [Live, hnone] at hc
  unfold tidCells tidVisible
  simp only [hparent, hput]
  by_cases hset : hasClone flags cloneChildSettid = true
  · simp only [hset, if_true]
    by_cases hfault : (w.putCells t.mm ctid pid).2 = true
    · simp only [hfault, if_true]
      exact ⟨trivial, hseen⟩
    · simp only [hfault, Bool.false_eq_true, if_false]
      refine ⟨trivial, fun c hc => ?_⟩
      rw [lastWrite_append, lastWrite_append, hseen c hc]
  · simp [hset]

lemma live_of_visible {m : CloneMm} (hm : w.mm t.mm = some m) {x : MemCell × ℕ}
    (hx : x ∈ (w.tidVisible t flags ptid ctid pid).1) : w.Live x.1 := by
  have hlive {addr : ℕ} (hx : x ∈ (w.putCells t.mm addr pid).1) : w.Live x.1 := by
    obtain ⟨d, b⟩ := x
    obtain ⟨a, hd⟩ | hshared := mem_putCells hx
    · obtain rfl : d = .own t.mm a := hd
      simp [Live, hm]
    · cases d with
      | own mm a => cases hshared
      | shared page offset => trivial
  have hseen : x ∈ (if hasClone flags cloneVm then
      (if hasClone flags cloneChildSettid then w.putCells t.mm ctid pid else ([], false)).1
      else (if hasClone flags cloneChildSettid then w.putCells t.mm ctid pid
        else ([], false)).1.filter fun x => x.1.isShared) → w.Live x.1 := by
    intro hx
    have hmem : x ∈ (if hasClone flags cloneChildSettid then w.putCells t.mm ctid pid
        else ([], false)).1 := by
      split_ifs at hx ⊢
      all_goals first | exact hx | exact (List.mem_filter.1 hx).1
    split_ifs at hmem
    · exact hlive hmem
    · cases hmem
  unfold tidVisible at hx
  simp only at hx
  by_cases hfault : (if hasClone flags cloneChildSettid then w.putCells t.mm ctid pid
      else ([], false)).2 = true
  · rw [if_pos hfault] at hx
    exact hseen hx
  · rw [if_neg hfault] at hx
    obtain hx | hx := List.mem_append.1 hx
    · exact hseen hx
    · split_ifs at hx
      · exact hlive hx
      · cases hx

def ReachesTids (alloc : CloneAlloc) (flags : CloneFlags) : Prop :=
  alloc.MmOk flags ∧ alloc.FilesOk flags ∧ alloc.FsOk flags ∧ alloc.SighandOk flags ∧
    alloc.GroupOk flags

lemma Keeps.trans {w₂ : CloneWorld} (h : w.Keeps w₁) (h' : w₁.Keeps w₂) : w.Keeps w₂ where
  task := h'.task.trans h.task
  group := h'.group.trans h.group
  session := h'.session.trans h.session
  pgroup := h'.pgroup.trans h.pgroup
  fd f := (h.fd f).trans (h'.fd f)

lemma copied_live (mem : CloneMemory) {id : ℕ} (hid : hasClone flags cloneVm = true ∧ id = t.mm ∨
    hasClone flags cloneVm = false ∧ w.mm id = none) {c : MemCell} (hc : w.Live c) :
    (if hasClone flags cloneVm then mem else mem.copy t.mm id) c = mem c := by
  obtain ⟨hvm, -⟩ | ⟨hvm, hnone⟩ := hid
  · rw [hvm]
    rfl
  · rw [hvm]
    cases c with
    | shared page offset => rfl
    | own mm addr =>
      have hne : mm ≠ id := by
        rintro rfl
        simp [Live, hnone] at hc
      simp [CloneMemory.copy, hne]

/-- What `copy_task` comes to: a null pointer is followed, a table cannot be had and everything is
undone, or the tables are there and the numbers are written, after which an address that faults
undoes everything but what was written. -/
lemma copyTask_cases (mem : CloneMemory) (flags : CloneFlags) (ptid ctid pid : ℕ)
    (h : w.Ready t alloc) :
    (alloc.MmCrash flags ∨ alloc.MmOk flags ∧ alloc.FilesOk flags ∧ ¬ alloc.FsOk flags) ∧
        (∃ w₁ mem₁, w.copyTask t flags alloc mem ptid ctid pid = (.crash, w₁, mem₁)) ∨
      (¬ ReachesTids alloc flags ∧ ¬ alloc.MmCrash flags ∧
          (alloc.MmOk flags → alloc.FilesOk flags → alloc.FsOk flags)) ∧
        (∃ mem₁, w.copyTask t flags alloc mem ptid ctid pid = (.error (-12), w, mem₁) ∧
          ∀ c, w.Live c → mem₁ c = mem c) ∨
      (ReachesTids alloc flags ∧ ¬ alloc.MmCrash flags) ∧
        if (w.tidVisible t flags ptid ctid pid).2 then
          ∃ mem₁, w.copyTask t flags alloc mem ptid ctid pid = (.error (-14), w, mem₁) ∧
            ∀ c, w.Live c → mem₁ c = mem.write (w.tidVisible t flags ptid ctid pid).1 c
        else ∃ w₁ mem₁, w.copyTask t flags alloc mem ptid ctid pid = (.ok pid, w₁, mem₁) := by
  obtain ⟨m, hm, hmcount, hexe⟩ := h.mm
  obtain ⟨kfiles, hfiles, hfilescount, hopen⟩ := h.files
  obtain ⟨kfs, hfs, hfscount, hdirs⟩ := h.fs
  obtain ⟨n, hn, hncount⟩ := h.sighand
  obtain ⟨g, hg⟩ := h.group
  unfold copyTask ReachesTids
  obtain ⟨mm, w₁, hmm, hok, hcrash⟩ | ⟨hmm, hok, hcrash⟩ | ⟨hmm, hcrash⟩ :=
    w.stepMm_outcome t flags alloc
  · obtain ⟨hundo₁, hkeeps₁, hfiles₁, hfs₁, hsig₁⟩ := stepMm_got hm hmcount hexe h.newMm hmm
    obtain ⟨hown, hchild, hid⟩ := stepMm_cellAt hm h.newMm hmm
    have hmem {c : MemCell} (hc : w.Live c) := copied_live mem hid hc
    simp only [hmm, hok, hcrash]
    obtain ⟨files, w₂, hstep₂, hok₂⟩ | ⟨hstep₂, hok₂⟩ := w₁.stepFiles_outcome t flags alloc
    · obtain ⟨hundo₂, hkeeps₂, hmm₂, hfs₂, hsig₂⟩ := stepFiles_got (hfiles₁ ▸ hfiles) hfilescount
        (fun f hf => (hopen f hf).trans (hkeeps₁.fd f)) (hfiles₁ ▸ h.newFiles) hstep₂
      have hkeeps₂ := hkeeps₁.trans hkeeps₂
      simp only [hstep₂, hok₂]
      obtain ⟨fs, w₃, hstep₃, hok₃⟩ | ⟨hstep₃, hok₃⟩ := w₂.stepFs_outcome t flags alloc
      · obtain ⟨hundo₃, hkeeps₃, hmm₃, hsig₃⟩ := stepFs_got ((hfs₂.trans hfs₁) ▸ hfs) hfscount
          (fun f hf => (hdirs f hf).trans (hkeeps₂.fd f)) ((hfs₂.trans hfs₁) ▸ h.newFs) hstep₃
        have hkeeps₃ := hkeeps₂.trans hkeeps₃
        have hsig₃ := hsig₃.trans (hsig₂.trans hsig₁)
        simp only [hstep₃, hok₃]
        right
        obtain ⟨sighand, w₄, hstep₄, hok₄⟩ | ⟨hstep₄, hok₄⟩ :=
          w₃.stepSighand_outcome t flags alloc
        · obtain ⟨hundo₄, hkeeps₄, hmm₄⟩ := stepSighand_got (hsig₃ ▸ hn) hncount
            (hsig₃ ▸ h.newSighand) hstep₄
          have hkeeps₄ := hkeeps₃.trans hkeeps₄
          simp only [hstep₄, hok₄]
          obtain ⟨group, w₅, hstep₅, hok₅⟩ | ⟨hstep₅, hok₅⟩ :=
            w₄.stepGroup_outcome t flags alloc pid
          · right
            obtain ⟨hundo₅, hmm₅⟩ := stepGroup_got (hkeeps₄.group ▸ hg) (fun a ha => by
              rw [hkeeps₄.group, hkeeps₄.session, hkeeps₄.pgroup]
              exact h.newGroup a ha) hstep₅
            have hmm₅ : w₅.mm = w₁.mm := hmm₅.trans (hmm₄.trans (hmm₃.trans hmm₂))
            obtain ⟨hfault, hlast⟩ := tidCells_visible ptid ctid pid
              (fun addr => (congrFun (cellAt_congr hmm₅) addr).trans (hown addr))
              (fun addr => (congrFun (cellAt_congr hmm₅) addr).trans (hchild addr)) hid
            refine ⟨⟨⟨trivial, trivial, trivial, trivial, hok₅⟩, not_false⟩, ?_⟩
            simp only [hstep₅, hfault]
            by_cases hbad : (w.tidVisible t flags ptid ctid pid).2 = true
            · rw [if_pos hbad, if_pos hbad, hundo₅, hundo₄, hundo₃, hundo₂, hundo₁]
              refine ⟨_, rfl, fun c hc => ?_⟩
              rw [CloneMemory.write_apply, CloneMemory.write_apply, hlast c hc, hmem hc]
            · rw [if_neg hbad, if_neg hbad]
              exact ⟨_, _, rfl⟩
          · left
            simp only [hstep₅, hok₅, hundo₄, hundo₃, hundo₂, hundo₁]
            exact ⟨by simp, _, rfl, fun c hc => hmem hc⟩
        · left
          simp only [hstep₄, hok₄, hundo₃, hundo₂, hundo₁]
          exact ⟨by simp, _, rfl, fun c hc => hmem hc⟩
      · left
        simp only [hstep₃, hok₃]
        exact ⟨by simp, _, _, rfl⟩
    · right
      left
      simp only [hstep₂, hok₂, hundo₁]
      exact ⟨by simp, _, rfl, fun c hc => hmem hc⟩
  · right
    left
    simp only [hmm, hok, hcrash]
    exact ⟨by simp, _, rfl, fun c hc => rfl⟩
  · left
    simp only [hmm]
    exact ⟨.inl hcrash, _, _, rfl⟩

/-- A clone that does not succeed returns an error, and everything but the number that was given out
last is as before; so is the memory that was there. -/
def LeavesNoTrace (w : CloneWorld) (mem : CloneMemory)
    (r : CloneResult × CloneWorld × CloneMemory) : Prop :=
  match r.1 with
  | .ok _ => True
  | .error e => e < 0 ∧ { r.2.1 with curPid := w.curPid } = w ∧ ∀ c, w.Live c → r.2.2 c = mem c
  | _ => False

/-- The flags are implemented and go together, and the fork guard lets the clone pass. -/
def Accepted (flags : CloneFlags) (guard : Option ℤ) : Prop :=
  flags &&& ~~~csignal &&& ~~~implementedFlags = 0 ∧
    (hasClone flags cloneSighand = true → hasClone flags cloneVm = true) ∧
    (hasClone flags cloneThread = true → hasClone flags cloneSighand = true) ∧
    (hasClone flags cloneThread = true ∨ ∀ e ∈ guard, 0 ≤ e)

/-- If an address faults, the bytes written before that to memory that was there are the bytes it
had. -/
def TidsUnseen (w : CloneWorld) (t : CloneTask) (flags : CloneFlags) (mem : CloneMemory)
    (ptid ctid pid : ℕ) : Prop :=
  (w.tidVisible t flags ptid ctid pid).2 = true →
    ∀ c b, lastWrite (w.tidVisible t flags ptid ctid pid).1 c = some b → mem c = b

lemma write_tidVisible (flags : CloneFlags) (mem : CloneMemory) (ptid ctid pid : ℕ)
    {m : CloneMm} (hm : w.mm t.mm = some m) :
    (∀ c, w.Live c → mem.write (w.tidVisible t flags ptid ctid pid).1 c = mem c) ↔
      ∀ c b, lastWrite (w.tidVisible t flags ptid ctid pid).1 c = some b → mem c = b := by
  simp only [CloneMemory.write_apply]
  constructor
  · intro h c b hb
    have heq := h c (live_of_visible hm (mem_of_lastWrite hb))
    rw [hb] at heq
    exact heq.symm
  · intro h c hc
    cases hb : lastWrite (w.tidVisible t flags ptid ctid pid).1 c with
    | none => rfl
    | some b => exact (h c b hb).symm

lemma Ready.taskCreate (h : w.Ready t alloc) (n current pid : ℕ) :
    ({ w with curPid := n }.taskCreate current pid).Ready t alloc :=
  ⟨h.mm, h.files, h.fs, h.sighand, h.group, h.newMm, h.newFiles, h.newFs, h.newSighand, h.newGroup⟩

lemma nextPid_free (h : w.nextPid = some pid) : w.task pid = none := by
  have hempty := List.find?_some h
  simp only [pidEmpty, Option.isNone_iff_eq_none, decide_eq_true_eq] at hempty
  exact hempty.1

lemma sysClone_refused {guard : Option ℤ} (hacc : ¬ Accepted flags guard) (current : ℕ) :
    ∃ e < 0, w.sysClone flags alloc mem current guard ptid ctid = (.error e, w, mem) := by
  unfold sysClone
  by_cases himpl : flags &&& ~~~csignal &&& ~~~implementedFlags = 0
  · rw [if_neg (not_not.2 himpl)]
    by_cases hsighand : hasClone flags cloneSighand = true ∧ ¬ hasClone flags cloneVm = true
    · exact ⟨-22, by decide, if_pos hsighand⟩
    · rw [if_neg hsighand]
      by_cases hthread : hasClone flags cloneThread = true ∧ ¬ hasClone flags cloneSighand = true
      · exact ⟨-22, by decide, if_pos hthread⟩
      · rw [if_neg hthread]
        cases hguard : (if hasClone flags cloneThread then none else guard.filter (· < 0)) with
        | some e =>
          split_ifs at hguard
          have he := Option.eq_some_of_filter_eq_some hguard
          exact ⟨e, by simpa using (Option.filter_eq_some_iff.1 hguard).2, rfl⟩
        | none =>
          refine absurd ⟨himpl, fun h => ?_, fun h => ?_, ?_⟩ hacc
          · exact by_contra fun hn => hsighand ⟨h, hn⟩
          · exact by_contra fun hn => hthread ⟨h, hn⟩
          · by_cases hth : hasClone flags cloneThread = true
            · exact .inl hth
            · rw [if_neg hth] at hguard
              exact .inr fun e he => by simpa using Option.filter_eq_none_iff.1 hguard e he
  · exact ⟨-22, by decide, if_pos himpl⟩

lemma sysClone_accepted {guard : Option ℤ} {current : ℕ} (hacc : Accepted flags guard)
    (ht : w.task current = some t) :
    w.sysClone flags alloc mem current guard ptid ctid =
      match w.nextPid with
      | none => (.hang, w, mem)
      | some pid =>
        if alloc.task = true then
          let r := ({ w with curPid := pid }.taskCreate current pid).copyTask t flags alloc mem
            ptid ctid pid
          match r.1 with
          | .error _ => (r.1, r.2.1.taskDestroy pid, r.2.2)
          | _ => r
        else (.error (-12), { w with curPid := pid }, mem) := by
  obtain ⟨himpl, hsighand, hthread, hguard⟩ := hacc
  have hpass : (if hasClone flags cloneThread then none else guard.filter (· < 0)) = none := by
    obtain hth | hguard := hguard
    · rw [if_pos hth]
    · cases guard with
      | none => rw [Option.filter_none, ite_self]
      | some e =>
        have he : ¬ e < 0 := not_lt.2 (hguard e rfl)
        rw [Option.filter_some_neg (by simpa using he), ite_self]
  unfold sysClone
  rw [if_neg (not_not.2 himpl), if_neg (fun h => h.2 (hsighand h.1)),
    if_neg (fun h => h.2 (hthread h.1))]
  simp only [hpass, ht]
  cases w.nextPid with
  | none => rfl
  | some pid => cases alloc.task <;> rfl

/-- **Failed clones**: a clone that fails leaves no trace if and only if a pid is free, no
allocation that is not looked at fails, and the numbers written to memory before an address faults
are not seen. -/
theorem clone_leavesNoTrace_iff (mem : CloneMemory) (flags : CloneFlags) (guard : Option ℤ)
    (ptid ctid : ℕ) {current : ℕ} (ht : w.task current = some t) (h : w.Ready t alloc) :
    w.LeavesNoTrace mem (w.sysClone flags alloc mem current guard ptid ctid) ↔
      (Accepted flags guard → ∃ pid, w.nextPid = some pid ∧ (alloc.task = true →
        ¬ alloc.MmCrash flags ∧ (alloc.MmOk flags → alloc.FilesOk flags → alloc.FsOk flags) ∧
          (ReachesTids alloc flags → w.TidsUnseen t flags mem ptid ctid pid))) := by
  by_cases hacc : Accepted flags guard
  · rw [forall_prop_of_true hacc, sysClone_accepted hacc ht]
    cases hpid : w.nextPid with
    | none => simp [LeavesNoTrace]
    | some pid =>
      by_cases halloc : alloc.task = true
      · have hcur : { w with curPid := pid }.task current = some t := ht
        have hfree := nextPid_free hpid
        have hundo := taskDestroy_taskCreate (w := { w with curPid := pid }) hcur hfree
        obtain ⟨m, hm, -⟩ := h.mm
        have hwrite := write_tidVisible flags mem ptid ctid pid hm
        simp only [halloc, if_true, Option.some.injEq, exists_eq_left', forall_const]
        obtain ⟨hbad, w₁, mem₁, hr⟩ | ⟨hok, mem₁, hr, hmem⟩ | ⟨hok, hr⟩ :=
          copyTask_cases mem flags ptid ctid pid (h.taskCreate pid current pid)
        · rw [hr]
          refine iff_of_false (fun h => h) fun hall => ?_
          obtain hcrash | ⟨hmm, hfiles, hfs⟩ := hbad
          · exact hall.1 hcrash
          · exact hfs (hall.2.1 hmm hfiles)
        · rw [hr]
          have hall : ¬ alloc.MmCrash flags ∧
              (alloc.MmOk flags → alloc.FilesOk flags → alloc.FsOk flags) ∧
                (ReachesTids alloc flags → w.TidsUnseen t flags mem ptid ctid pid) :=
            ⟨hok.2.1, hok.2.2, fun h => absurd h hok.1⟩
          refine iff_of_true ⟨by decide, ?_, hmem⟩ hall
          exact congrArg (fun w₁ : CloneWorld => { w₁ with curPid := w.curPid }) hundo
        · have hcrash : ¬ alloc.MmCrash flags := hok.2
          have hfs : alloc.FsOk flags := hok.1.2.2.1
          simp only [hcrash, hfs, hok.1, not_false_eq_true, imp_true_iff, true_and, forall_const]
          unfold TidsUnseen
          split_ifs at hr with hbad
          · obtain ⟨mem₁, hr, hmem⟩ := hr
            have hbad : (w.tidVisible t flags ptid ctid pid).2 = true := hbad
            rw [hr, forall_prop_of_true hbad, ← hwrite]
            constructor
            · intro hall c hc
              exact (hmem c hc).symm.trans (hall.2.2 c hc)
            · intro hall
              refine ⟨by decide, ?_, fun c hc => (hmem c hc).trans (hall c hc)⟩
              exact congrArg (fun w₁ : CloneWorld => { w₁ with curPid := w.curPid }) hundo
          · obtain ⟨w₁, mem₁, hr⟩ := hr
            rw [hr]
            exact iff_of_true trivial fun h => absurd h hbad
      · simp [LeavesNoTrace, halloc]
  · obtain ⟨e, he, hrefused⟩ := sysClone_refused hacc current
    rw [hrefused]
    exact iff_of_true ⟨he, rfl, fun c hc => rfl⟩ fun h => absurd h hacc

def oneTask : CloneWorld where
  curPid := 1
  task p := if p = 1 then some ⟨none, [], 1, 1, 1, 1, 1⟩ else none
  session p := if p = 1 then [1] else []
  pgroup p := if p = 1 then [1] else []
  group g := if g = 1 then some ⟨1, [1], none, none, []⟩ else none
  tty _ := 0
  mm i := if i = 1 then some ⟨1, 0, fun p => if p = 0 then some ⟨true, none⟩ else none⟩ else none
  files i := if i = 1 then some ⟨1, [some 0]⟩ else none
  fs i := if i = 1 then some ⟨1, 0, 0⟩ else none
  sighand i := if i = 1 then some 1 else none
  fd f := if f = 0 then 4 else 0
  closed := []

/-- What the host allocates, except for the root and working directory and the thread group. -/
def allocAllBut (fs group : Option ℕ) : CloneAlloc :=
  ⟨true, some 2, true, some 2, fs, some 2, group⟩

lemma nextPid_oneTask : oneTask.nextPid = some 2 := by
  unfold nextPid maxPid
  rw [show 2 ^ 15 = 32767 + 1 from rfl, List.range_succ_eq_map, List.map_cons]
  exact List.find?_cons_of_pos (by decide)

lemma ready_oneTask (group : Option ℕ) (hgroup : ∀ a ∈ group, a = 2) :
    oneTask.Ready ⟨none, [], 1, 1, 1, 1, 1⟩ (allocAllBut (some 2) group) where
  mm := ⟨_, rfl, by decide, by decide⟩
  files := ⟨_, rfl, by decide, by decide⟩
  fs := ⟨_, rfl, by decide, by decide⟩
  sighand := ⟨_, rfl, by decide⟩
  group := ⟨_, rfl⟩
  newMm := by simp [oneTask, allocAllBut]
  newFiles := by simp [oneTask, allocAllBut]
  newFs := by simp [oneTask, allocAllBut]
  newSighand := by simp [oneTask, allocAllBut]
  newGroup a ha := by
    obtain rfl := hgroup a ha
    refine ⟨rfl, fun p => ?_⟩
    by_cases hp : p = 1 <;> simp [oneTask, hp]

/-- A fork for which there is no thread group leaves no trace. -/
theorem clone_leavesNoTrace_oneTask :
    oneTask.LeavesNoTrace (fun _ => 0)
      (oneTask.sysClone 17 (allocAllBut (some 2) none) (fun _ => 0) 1 none 0 0) := by
  have ht : oneTask.task 1 = some ⟨none, [], 1, 1, 1, 1, 1⟩ := rfl
  have hready := ready_oneTask none (by simp)
  have hiff := clone_leavesNoTrace_iff (fun _ => 0) 17 none 0 0 ht hready
  rw [hiff]
  intro hacc
  refine ⟨2, nextPid_oneTask, fun halloc => ?_⟩
  refine ⟨?_, ?_, ?_⟩
  · simp [CloneAlloc.MmCrash, allocAllBut]
  · simp [CloneAlloc.FsOk, allocAllBut]
  · rintro ⟨-, -, -, -, hgroup⟩
    revert hgroup
    simp [CloneAlloc.GroupOk, allocAllBut, hasClone, cloneThread]

/-- A fork for which there is no root and working directory follows a null pointer, and a clone
that shares the address space has written the number of the child when the address of the parent
faults. -/
theorem clone_leaves_trace :
    let mem : CloneMemory := fun _ => 0
    let fork := oneTask.sysClone 17 (allocAllBut none (some 2)) mem 1 none 0 0
    let clone := oneTask.sysClone (cloneVm ||| cloneChildSettid ||| cloneParentSettid)
      (allocAllBut (some 2) (some 2)) mem 1 none 4096 8
    (fork.1 = .crash ∧ ¬ oneTask.LeavesNoTrace mem fork) ∧
      clone.1 = .error (-14) ∧ ¬ oneTask.LeavesNoTrace mem clone := by
  intro mem fork clone
  have ht : oneTask.task 1 = some ⟨none, [], 1, 1, 1, 1, 1⟩ := rfl
  have hacc (flags : CloneFlags) (himpl : flags &&& ~~~csignal &&& ~~~implementedFlags = 0)
      (hsighand : hasClone flags cloneSighand = false) (hthread : hasClone flags cloneThread = false) :
      Accepted flags none :=
    ⟨himpl, by simp [hsighand], by simp [hthread], .inr (by simp)⟩
  have hfork : fork.1 = .crash := by
    simp only [fork]
    rw [sysClone_accepted (hacc 17 (by decide) (by decide) (by decide)) ht, nextPid_oneTask]
    decide +kernel
  have hclone : clone.1 = .error (-14) ∧ clone.2.2 (.own 1 8) = 2 := by
    simp only [clone]
    rw [sysClone_accepted (hacc _ (by decide) (by decide) (by decide)) ht, nextPid_oneTask]
    decide +kernel
  refine ⟨⟨hfork, ?_⟩, hclone.1, ?_⟩
  · unfold LeavesNoTrace
    rw [hfork]
    exact fun h => h
  · unfold LeavesNoTrace
    rw [hclone.1]
    rintro ⟨-, -, hmem⟩
    have hcell := hmem (.own 1 8) rfl
    rw [hclone.2] at hcell
    exact absurd hcell (by decide)

end CloneWorld

end ShellBox
