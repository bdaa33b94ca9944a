import ShellBox.Logic.RefCount
import ShellBox.Logic.Loop

/-!
# Descriptor tables

A `struct fd` is shared by the slots of descriptor tables, by the lists of references that the
running system calls hold, and by whoever else has called `fd_retain`. A table is shared by the
threads of a process. What runs under the lock of a table is one step here; `dup3` and the two
`fcntl` calls that duplicate store into the table without the lock, so that their store is a step
of its own.
-/

namespace ShellBox

open Function

abbrev FdId := ℕ
abbrev TaskId := ℕ
abbrev TableId := ℕ

def fdEbadf : ℤ := -9
def fdEnomem : ℤ := -12
def fdEmfile : ℤ := -24

def oCloexec : ℕ := 1 <<< 19

/-- An `unsigned` as a `fd_t`. -/
def asFdT (f : ℕ) : ℤ := if f < 2 ^ 31 then f else f - 2 ^ 32

/-- `struct fdtable`; `size` is the length of `files`. -/
structure FdTable where
  refcount : ℕ
  files : List (Option FdId)
  cloexec : ℕ → Bool

namespace FdTable

/-- `fdtable_get` -/
def get (T : FdTable) (f : ℤ) : Option FdId :=
  if f < 0 ∨ T.files.length ≤ f.toNat then none else (T.files[f.toNat]?).join

/-- `fdtable_resize` -/
def resize (T : FdTable) (size : ℕ) : FdTable :=
  { T with files := T.files ++ List.replicate (size - T.files.length) none }

/-- `fdtable_expand`; `max + 1` is an `unsigned`. -/
def expand (T : FdTable) (max : ℤ) (rlimit : ℕ) (oom : Bool) : Except ℤ FdTable :=
  let size := ((max + 1) % 2 ^ 32).toNat
  if rlimit < size then .error fdEmfile
  else if size ≤ T.files.length then .ok T
  else if oom then .error fdEnomem
  else .ok (T.resize size)

/-- `table->files[f] = fd`. Past the ends of the array the store reaches no slot of a table. -/
def store (T : FdTable) (f : ℤ) (fd : Option FdId) : FdTable :=
  if f < 0 then T else { T with files := T.files.set f.toNat fd }

/-- `bit_set` and `bit_clear` of the close-on-exec bit. -/
def setCloexec (T : FdTable) (f : ℤ) (bit : Bool) : FdTable :=
  if f < 0 then T else { T with cloexec := update T.cloexec f.toNat bit }

/-- Where the search of `f_install_start` ends. The limit is cut to an `unsigned`. -/
def scanEnd (T : FdTable) (rlimit : ℕ) : ℕ := min (rlimit % 2 ^ 32) T.files.length

/-- The slot `f_install_start` picks, or an error, and the table it is in. -/
def installSlot (T : FdTable) (start rlimit : ℕ) (oom : Bool) : FdTable × ℤ :=
  let size := T.scanEnd rlimit
  match (List.range' start (size - start)).find? (fun f => T.files[f]? = some none) with
  | some f => (T, asFdT f)
  | none =>
    let f := asFdT (max start size)
    match T.expand f rlimit oom with
    | .ok T => (T, f)
    | .error err => (T, err)

/-- The limit does not lose bits that make `f_install_start` stop before an occupied slot and take
it nevertheless. -/
def HasRoom (T : FdTable) (start rlimit : ℕ) : Prop :=
  rlimit < 2 ^ 32 ∨
  (∃ f, start ≤ f ∧ f < T.scanEnd rlimit ∧ T.files[f]? = some none) ∨
  (T.files[max start (T.scanEnd rlimit)]?).join = none

end FdTable

/-- The second half of a `dup3` or of a duplicating `fcntl`: the store that is still to come, and
what happens to the close-on-exec bit. -/
structure PendingStore where
  fd : FdId
  f : ℤ
  cloexec : Option Bool

def PendingStore.apply (p : PendingStore) (T : FdTable) : FdTable :=
  match p.cloexec with
  | some bit => (T.store p.f (some p.fd)).setCloexec p.f bit
  | none => T.store p.f (some p.fd)

structure FdWorld where
  /-- `fd->refcount` of the descriptions that are allocated. -/
  refcount : FdId → Option ℕ
  /-- The descriptions whose `close` has run. -/
  closed : List FdId
  tables : TableId → Option FdTable
  freedTables : List TableId
  /-- `task->files` -/
  files : TaskId → Option TableId
  /-- `task->syscall_refs` -/
  refs : TaskId → List FdId
  pending : TaskId → Option PendingStore
  /-- Pointers elsewhere that own a reference: a descriptor being opened, a mapping, a working
  directory, a message with descriptors in it. -/
  held : ℕ → Option FdId
  /-- Tables retained by a reader of `/proc/<pid>/fd`. -/
  readers : ℕ → Option TableId

namespace FdWorld

def setTable (w : FdWorld) (tb : TableId) (T : FdTable) : FdWorld :=
  { w with tables := update w.tables tb (some T) }

def table (w : FdWorld) (t : TaskId) : Option (TableId × FdTable) :=
  (w.files t).bind fun tb => (w.tables tb).map fun T => (tb, T)

def fdRetain (w : FdWorld) (fd : FdId) : FdWorld :=
  { w with refcount := update w.refcount fd ((w.refcount fd).map (· + 1)) }

def fdClose (w : FdWorld) (fd : FdId) : FdWorld :=
  match w.refcount fd with
  | some 1 => { w with refcount := update w.refcount fd none, closed := fd :: w.closed }
  | some n => { w with refcount := update w.refcount fd (some (n - 1)) }
  | none => w

def fdtableClose (tb : TableId) (w : FdWorld) (f : ℤ) : FdWorld :=
  match w.tables tb with
  | none => w
  | some T =>
    match T.get f with
    | none => w
    | some fd => (w.fdClose fd).setTable tb ((T.store f none).setCloexec f false)

def fdtableRelease (w : FdWorld) (tb : TableId) : FdWorld :=
  match w.tables tb with
  | none => w
  | some T =>
    let w := w.setTable tb { T with refcount := T.refcount - 1 }
    if T.refcount - 1 = 0 then
      let w := (List.range T.files.length).foldl (fun w (f : ℕ) => fdtableClose tb w f) w
      { w with tables := update w.tables tb none, freedTables := tb :: w.freedTables }
    else w

/-- The loop of `fdtable_copy` over the slots it has copied. -/
def retainAll (w : FdWorld) (files : List (Option FdId)) : FdWorld :=
  files.foldl (fun w fd => match fd with
    | some fd => w.fdRetain fd
    | none => w) w

/-- `fdtable_copy`, to a table `new` that `malloc` returns -/
def fdtableCopy (w : FdWorld) (T : FdTable) (new : TableId) : FdWorld :=
  (w.setTable new ⟨1, T.files, T.cloexec⟩).retainAll T.files

def fGet (w : FdWorld) (t : TaskId) (f : ℤ) (oom : Bool) : FdWorld × Option FdId :=
  match (w.table t).bind fun x => x.2.get f with
  | none => (w, none)
  | some fd =>
    if fd ∈ w.refs t then (w, some fd)
    else if oom then (w, none)
    else
      let w := w.fdRetain fd
      ({ w with refs := update w.refs t (w.refs t ++ [fd]) }, some fd)

def syscallRefsRelease (w : FdWorld) (t : TaskId) : FdWorld :=
  (w.refs t).foldl fdClose { w with refs := update w.refs t [] }

def fInstallStart (w : FdWorld) (tb : TableId) (T : FdTable) (fd : FdId) (start rlimit : ℕ)
    (oom : Bool) : FdWorld × ℤ :=
  let slot := T.installSlot start rlimit oom
  let w := w.setTable tb slot.1
  if 0 ≤ slot.2 then
    (w.setTable tb ((slot.1.store slot.2 (some fd)).setCloexec slot.2 false), slot.2)
  else (w.fdClose fd, slot.2)

/-- `f_install`. The flags a description keeps are not part of its lifetime. -/
def fInstall (w : FdWorld) (tb : TableId) (T : FdTable) (fd : FdId) (flags rlimit : ℕ)
    (oom : Bool) : FdWorld :=
  let r := w.fInstallStart tb T fd 0 rlimit oom
  match r.1.tables tb with
  | some T => if 0 ≤ r.2 ∧ flags &&& oCloexec ≠ 0 then r.1.setTable tb (T.setCloexec r.2 true)
    else r.1
  | none => r.1

/-- `sys_dup3` from `fdtable_expand` to `f_close`. -/
def sysDup3 (w : FdWorld) (t : TaskId) (tb : TableId) (T : FdTable) (fd : FdId) (newF : ℤ)
    (flags rlimit : ℕ) (oom : Bool) : FdWorld :=
  match T.expand newF rlimit oom with
  | .error _ => w
  | .ok T =>
    let cloexec := if flags &&& oCloexec ≠ 0 then some true else none
    let w := (w.setTable tb T).fdRetain fd
    fdtableClose tb { w with pending := update w.pending t (some ⟨fd, newF, cloexec⟩) } newF

/-- `F_DUPFD` and `F_DUPFD_CLOEXEC` up to the store of `f_install_start`, which runs without the
lock here. -/
def sysFcntlDupfd (w : FdWorld) (t : TaskId) (tb : TableId) (T : FdTable) (fd : FdId)
    (arg rlimit : ℕ) (cloexec oom : Bool) : FdWorld :=
  let slot := T.installSlot arg rlimit oom
  let w := (w.setTable tb slot.1).fdRetain fd
  if 0 ≤ slot.2 then { w with pending := update w.pending t (some ⟨fd, slot.2, some cloexec⟩) }
  else w.fdClose fd

/-- The store into the table that ends a `dup3` or a duplicating `fcntl`. -/
def storePending (w : FdWorld) (t : TaskId) (tb : TableId) (T : FdTable) (p : PendingStore) :
    FdWorld :=
  { w.setTable tb (p.apply T) with pending := update w.pending t none }

def fdtableDoCloexec (w : FdWorld) (tb : TableId) (T : FdTable) : FdWorld :=
  (List.range T.files.length).foldl
    (fun w (f : ℕ) => if T.cloexec f then fdtableClose tb w f else w) w

/-- One round of `sys_close_range`. A negative `f` reads outside the array; whatever is found
there, `fdtable_close` has a check of its own. -/
def closeRangeSlot (tb : TableId) (flags : ℕ) (w : FdWorld) (f : ℤ) : FdWorld :=
  match w.tables tb with
  | none => w
  | some T =>
    if T.get f = none then w
    else if flags &&& 0x04 ≠ 0 then w.setTable tb (T.setCloexec f true)
    else fdtableClose tb w f

def sysCloseRange (w : FdWorld) (tb : TableId) (T : FdTable) (first last flags : ℕ) : FdWorld :=
  if last < first then w
  else
    let lim : ℤ := T.files.length
    let last := if lim ≤ asFdT last then lim - 1 else asFdT last
    (List.range (last + 1 - asFdT first).toNat).foldl
      (fun w (i : ℕ) => closeRangeSlot tb flags w (asFdT first + i)) w

/-- The descriptor table of a new task, from `copy_task`. The child starts without references of
a system call. -/
def copyFiles (w : FdWorld) (child : TaskId) (tb : TableId) (T : FdTable) (new : TableId)
    (share oom : Bool) : FdWorld :=
  if share then
    let w := w.setTable tb { T with refcount := T.refcount + 1 }
    { w with files := update w.files child (some tb) }
  else if oom then w
  else
    let w := w.fdtableCopy T new
    { w with files := update w.files child (some new) }

/-- `do_exit`, as far as descriptors go. -/
def doExit (w : FdWorld) (t : TaskId) (tb : TableId) : FdWorld :=
  let w := (w.syscallRefsRelease t).fdtableRelease tb
  { w with files := update w.files t none }

end FdWorld

inductive FdOp
  /-- `fd_create`; its caller has the reference. -/
  | create (h : ℕ) (fd : FdId)
  /-- `fd_retain` by one that keeps the pointer. -/
  | retain (h : ℕ) (fd : FdId)
  /-- `fd_close` by one that kept it. -/
  | drop (h : ℕ)
  /-- `f_get` -/
  | get (t : TaskId) (f : ℤ) (oom : Bool)
  /-- `f_install` of what a caller holds. -/
  | install (t : TaskId) (h : ℕ) (flags rlimit : ℕ) (oom : Bool)
  /-- `sys_dup` of what its `f_get` returned. -/
  | dup (t : TaskId) (fd : FdId) (rlimit : ℕ) (oom : Bool)
  /-- `sys_dup3` of what its `f_get` returned. -/
  | dup3 (t : TaskId) (fd : FdId) (newF : ℤ) (flags rlimit : ℕ) (oom : Bool)
  /-- `F_DUPFD` or `F_DUPFD_CLOEXEC` of what `f_get` returned. The argument is a `fd_t`, and
  `assert(start >= 0)` stands before everything else. -/
  | fcntlDupfd (t : TaskId) (fd : FdId) (arg : Fin (2 ^ 31)) (rlimit : ℕ) (cloexec oom : Bool)
  /-- The store of one of the two calls before. -/
  | store (t : TaskId)
  /-- `F_SETFD` -/
  | fcntlSetfd (t : TaskId) (f : ℤ) (bit : Bool)
  /-- `sys_close` -/
  | close (t : TaskId) (f : ℤ)
  | closeRange (t : TaskId) (first last flags : ℕ)
  /-- `fdtable_do_cloexec` -/
  | exec (t : TaskId)
  /-- A system call returns: `syscall_refs_drain`. -/
  | ret (t : TaskId)
  /-- `clone`, with or without `CLONE_FILES`. -/
  | clone (t child : TaskId) (new : TableId) (share oom : Bool)
  | exit (t : TaskId)
  /-- A reader of `/proc/<pid>/fd` retains the table of a task. -/
  | readTable (r : ℕ) (t : TaskId)
  /-- `fdtable_release` by the reader. -/
  | putTable (r : ℕ)

namespace FdWorld

def onTable (w : FdWorld) (t : TaskId) (f : TableId → FdTable → FdWorld) : FdWorld :=
  match w.pending t, w.table t with
  | none, some (tb, T) => f tb T
  | _, _ => w

end FdWorld

open FdWorld in
def fdStep (w : FdWorld) : FdOp → FdWorld
  | .create h fd =>
    if w.held h = none ∧ w.refcount fd = none ∧ fd ∉ w.closed then
      { w with refcount := update w.refcount fd (some 1), held := update w.held h (some fd) }
    else w
  | .retain h fd =>
    if w.held h = none ∧ (w.refcount fd).isSome then
      let w := w.fdRetain fd
      { w with held := update w.held h (some fd) }
    else w
  | .drop h =>
    match w.held h with
    | some fd =>
      let w := w.fdClose fd
      { w with held := update w.held h none }
    | none => w
  | .get t f oom => w.onTable t fun _ _ => (w.fGet t f oom).1
  | .install t h flags rlimit oom => w.onTable t fun tb T =>
    match w.held h with
    | some fd => { w with held := update w.held h none }.fInstall tb T fd flags rlimit oom
    | none => w
  | .dup t fd rlimit oom => w.onTable t fun tb T =>
    if fd ∈ w.refs t then (w.fdRetain fd).fInstall tb T fd 0 rlimit oom else w
  | .dup3 t fd newF flags rlimit oom => w.onTable t fun tb T =>
    if fd ∈ w.refs t then w.sysDup3 t tb T fd newF flags rlimit oom else w
  | .fcntlDupfd t fd arg rlimit cloexec oom => w.onTable t fun tb T =>
    if fd ∈ w.refs t then w.sysFcntlDupfd t tb T fd arg rlimit cloexec oom else w
  | .store t =>
    match w.pending t, w.table t with
    | some p, some (tb, T) => w.storePending t tb T p
    | _, _ => w
  | .fcntlSetfd t f bit => w.onTable t fun tb T =>
    if (T.get f).isSome then w.setTable tb (T.setCloexec f bit) else w
  | .close t f => w.onTable t fun tb _ => fdtableClose tb w f
  | .closeRange t first last flags => w.onTable t fun tb T => w.sysCloseRange tb T first last flags
  | .exec t => w.onTable t fun tb T => w.fdtableDoCloexec tb T
  | .ret t => w.onTable t fun _ _ => w.syscallRefsRelease t
  | .clone t child new share oom => w.onTable t fun tb T =>
    if w.files child = none ∧ w.tables new = none ∧ new ∉ w.freedTables then
      w.copyFiles child tb T new share oom
    else w
  | .exit t => w.onTable t fun tb _ => w.doExit t tb
  | .readTable r t =>
    match w.readers r, w.table t with
    | none, some (tb, T) =>
      let w := w.setTable tb { T with refcount := T.refcount + 1 }
      { w with readers := update w.readers r (some tb) }
    | _, _ => w
  | .putTable r =>
    match w.readers r with
    | some tb =>
      let w := w.fdtableRelease tb
      { w with readers := update w.readers r none }
    | none => w

/-- The first task, with the table `fdtable_new(3)` makes. -/
def FdWorld.init (t : TaskId) (tb : TableId) : FdWorld where
  refcount _ := none
  closed := []
  tables := update (fun _ => none) tb (some ⟨1, List.replicate 3 none, fun _ => false⟩)
  freedTables := []
  files := update (fun _ => none) t (some tb)
  refs _ := []
  pending _ := none
  held _ := none
  readers _ := none

end ShellBox
