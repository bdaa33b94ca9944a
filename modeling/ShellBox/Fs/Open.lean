import ShellBox.Fs.Fakefs
import ShellBox.Fs.PathCache

/-!
# Opening a file

`generic_openat` resolves the path, has the filesystem open the file, and then looks at what has
been opened: whether the caller may have it, and whether its type fits the flags. The host has
made the file or cut it off by then.
-/

namespace ShellBox

open Function

/-- `O_WRONLY_`, `O_RDWR_`, `O_EXCL_`, `O_TRUNC_`, `O_DIRECTORY_` and `O_NOFOLLOW_`. -/
def oWronly : ℕ := 1 <<< 0
def oRdwr : ℕ := 1 <<< 1
def oExcl : ℕ := 1 <<< 7
def oTrunc : ℕ := 1 <<< 9
def oDirectory : ℕ := 1 <<< 14
def oNofollow : ℕ := 1 <<< 15

def hasFlag (flags flag : ℕ) : Bool := flags &&& flag ≠ 0

/-- `AC_R` and `AC_W`. -/
def acR : ℕ := 4
def acW : ℕ := 2

/-- The errors of the path resolution, those of the filesystem, and those of `generic_openat`. -/
inductive OpenErr
  | path (e : PathErr)
  | fs (e : FsErr)
  | einval | enomem | eacces | eloop | enxio | eisdir | enotdir
  | dev (e : ℤ)
  /-- The path resolution wrote past its buffer. -/
  | overflow
  deriving DecidableEq

structure HostFile where
  isDir : Bool
  data : CString
  deriving DecidableEq

/-- What the host says about a descriptor: `realfs.fstat` and `realfs_getpath`. -/
structure FdHost (H : Type*) where
  fstat : H → ℕ → Except ℤ IshStat
  getpath : H → ℕ → Option CString

/-- `current->euid`, `current->egid` and the other groups. -/
structure OpenCred extends PathCred where
  groups : List ℕ

def IshStat.toPathStat (st : IshStat) : PathStat := ⟨st.uid, st.gid, st.mode⟩

/-- `S_IFMT` of the mode. -/
def IshStat.type (st : IshStat) : ℕ := st.mode &&& sIfmt

variable {H : Type*}

def hookedStat (real : IshStat) : IshStat :=
  { mode := real.type ||| (if real.type = sIfdir then 0o755 else 0o644), uid := 0, gid := 0, rdev := 0 }

def fakefsFstat (host : FdHost H) (fs : Fakefs H) (realFd fakeInode : ℕ) : Except FsErr IshStat :=
  match host.fstat fs.host realFd with
  | .error e => .error (.host e)
  | .ok real =>
    match fs.db.inodeReadStat fakeInode with
    | some st => .ok st
    | none =>
      if (host.getpath fs.host realFd).any fun path => viaHook (fs.route path) then
        .ok (hookedStat real)
      else .error .enoent

def accmode (flags : ℕ) : ℕ :=
  if hasFlag flags oRdwr then acR ||| acW else if hasFlag flags oWronly then acW else acR

/-- What `generic_openat` refuses behind the open; `devOpen` is the error of `dev_open`. -/
def openRefusal (cred : PathCred) (devOpen : IshStat → Option ℤ) (st : IshStat) (flags : ℕ) :
    Option OpenErr :=
  if ¬ accessCheck cred st.toPathStat (accmode flags) then some .eacces
  else if st.type = sIflnk then some .eloop
  else
    match if st.type = sIfblk ∨ st.type = sIfchr then devOpen st else none with
    | some e => some (.dev e)
    | none =>
      if st.type = sIfsock then some .enxio
      else if st.type = sIfdir ∧ hasFlag flags (oRdwr ||| oWronly) then some .eisdir
      else if st.type ≠ sIfdir ∧ hasFlag flags oDirectory then some .enotdir
      else none

def Fakefs.target (fs : Fakefs H) (path : CString) : HostPath := hostPathOf path (fs.route path)

/-- What an open runs on: the calls of the host; the tree that paths are resolved in, with the
cache of the thread, the root of the process, the directory it starts from and the clock; the
devices; and whether there is memory for the inode. -/
structure OpenEnv (H : Type*) where
  sys : HostCalls H
  host : FdHost H
  tree : FileTree
  cache : PathCache tree
  root : Directory tree
  dir : Directory tree
  now : ℕ
  later : ℕ
  cred : OpenCred
  devOpen : IshStat → Option ℤ
  memory : Bool

namespace OpenEnv

variable (e : OpenEnv H) (fs : Fakefs H) (raw : CString) (flags mode : ℕ)

def fileCred : Cred := ⟨e.cred.euid, e.cred.egid⟩

def pathCall : PathCall e.tree where
  root := e.root
  dir := e.dir
  path := raw
  flags := ⟨¬ hasFlag flags oNofollow, hasFlag flags oCreat⟩
  cred := e.cred.toPathCred
  now := e.now
  later := e.later

/-- `path_normalize` of the call. -/
def resolve : PathResult := (e.cache.pathNormalize (e.pathCall raw flags)).2

/-- `generic_openat`, behind the open of the filesystem. -/
def openedFile (fd : FakeFd) : Except OpenErr FakeFd :=
  match fakefsFstat e.host fs fd.realFd fd.fakeInode with
  | .error err => .error (.fs err)
  | .ok st =>
    if ¬ e.memory then .error .enomem
    else
      match openRefusal e.cred.toPathCred e.devOpen st flags with
      | some err => .error err
      | none => .ok fd

def genericOpenat : Except OpenErr FakeFd × Fakefs H :=
  if hasFlag flags oRdwr ∧ hasFlag flags oWronly then (.error .einval, fs)
  else
    match e.resolve raw flags with
    | .err err => (.error (.path err), fs)
    | .ok path =>
      match fakefsOpen e.sys e.fileCred fs path flags mode with
      | (.error err, fs) => (.error (.fs err), fs)
      | (.ok fd, fs) => (e.openedFile fs flags fd, fs)
    | _ => (.error .overflow, fs)

/-! ### The file that is opened -/

/-- What the caller is told about an open file with an inode number: its row or, for a file that a
hook has routed, what the host says. -/
def rowStat (no ino : ℕ) : Option IshStat :=
  (e.host.fstat fs.host no).toOption.bind fun real =>
    (fs.db.inodeReadStat ino).or
      (if (e.host.getpath fs.host no).any fun path => viaHook (fs.route path) then
        some (hookedStat real) else none)

/-- The row of a file that `fakefs_open` makes. -/
def madeStat : IshStat :=
  { mode := mode ||| sIfreg, uid := e.cred.euid, gid := e.cred.egid, rdev := 0 }

/-- What the caller is told about the file at a path, when it has been opened as `no`: its row, if
there is one, and else what is put there for it. -/
def statHere (path : CString) (no : ℕ) : Option IshStat :=
  let made := bindMountEnsureInode e.sys fs path
  if viaHook (fs.route path) then e.rowStat fs no ((e.sys.fstatIno fs.host no).getD 1)
  else if fs.db.pathGetInode path ≠ 0 then e.rowStat fs no (fs.db.pathGetInode path)
  else if hasFlag flags oCreat then
    (e.host.fstat fs.host no).toOption.map fun _ => e.madeStat mode
  else if isUnderBindMount fs.mounts path ∧ made.1 ≠ 0 then
    (e.host.fstat fs.host no).toOption.bind fun _ => made.2.db.inodeReadStat made.1
  else none

def Admits (st : IshStat) : Prop :=
  e.memory = true ∧ openRefusal e.cred.toPathCred e.devOpen st flags = none

def Loses (view : H → HostPath → Option HostFile) (h : H) (p : HostPath) (flags : ℕ) : Prop :=
  match view h p with
  | none => True
  | some f => hasFlag flags oTrunc = true ∧ f.isDir = false ∧ f.data ≠ []

variable {e fs raw flags mode} {path : CString} {no : ℕ} {host : H}

lemma openedFile_ok {fd fd' : FakeFd} (h : e.openedFile fs flags fd = .ok fd') : fd' = fd := by
  unfold openedFile at h
  split at h
  · cases h
  · split_ifs at h
    split at h
    · cases h
    · exact (Except.ok.inj h).symm

lemma bindMountEnsureInode_host (sys : HostCalls H) (fs : Fakefs H) (path : CString) :
    (bindMountEnsureInode sys fs path).2.host = fs.host := by
  unfold bindMountEnsureInode
  simp only
  split
  · rfl
  · split <;> rfl

lemma bindMountEnsureInode_row (sys : HostCalls H) (hno : fs.db.pathGetInode path = 0) :
    (bindMountEnsureInode sys fs path).1 = 0 ∨
      ((bindMountEnsureInode sys fs path).2.db.inodeReadStat
        (bindMountEnsureInode sys fs path).1).isSome = true := by
  unfold bindMountEnsureInode
  simp only [hno, ne_eq, not_true_eq_false, if_false]
  split
  · exact .inl rfl
  · right
    simp [MetaDb.pathCreate, MetaDb.inodeReadStat]

def openedIno (e : OpenEnv H) (fs : Fakefs H) (flags mode : ℕ) (path : CString) (no : ℕ) :
    Option ℕ × Fakefs H :=
  let made := bindMountEnsureInode e.sys fs path
  if viaHook (fs.route path) then (some ((e.sys.fstatIno fs.host no).getD 1), fs)
  else if fs.db.pathGetInode path ≠ 0 then (some (fs.db.pathGetInode path), fs)
  else if hasFlag flags oCreat then
    (some fs.db.stats.nextKey, { fs with db := fs.db.pathCreate path (e.madeStat mode) })
  else if isUnderBindMount fs.mounts path then
    (if made.1 = 0 then none else some made.1, made.2)
  else (none, fs)

lemma fakefsOpened_ino (e : OpenEnv H) (fs : Fakefs H) (flags mode : ℕ) (path : CString) (no : ℕ) :
    (fakefsOpened e.sys e.fileCred fs path flags mode no).2 =
        (e.openedIno fs flags mode path no).2 ∧
      (fakefsOpened e.sys e.fileCred fs path flags mode no).1.toOption.map
          (fun fd => (fd.realFd, fd.fakeInode)) =
        (e.openedIno fs flags mode path no).1.map fun ino => (no, ino) := by
  unfold fakefsOpened openedIno hasFlag
  simp only [fileCred, decide_eq_true_eq]
  split_ifs
  all_goals exact ⟨rfl, rfl⟩

lemma openedIno_host (e : OpenEnv H) (fs : Fakefs H) (flags mode : ℕ) (path : CString) (no : ℕ) :
    (e.openedIno fs flags mode path no).2.host = fs.host := by
  unfold openedIno
  simp only
  split_ifs
  all_goals first | rfl | exact bindMountEnsureInode_host _ _ _

lemma toOption_fakefsFstat (e : OpenEnv H) (fs : Fakefs H) (no ino : ℕ) :
    (fakefsFstat e.host fs no ino).toOption = e.rowStat fs no ino := by
  unfold fakefsFstat rowStat
  cases e.host.fstat fs.host no with
  | error er => rfl
  | ok real =>
    cases fs.db.inodeReadStat ino with
    | some st => rfl
    | none =>
      simp only [Except.toOption, Option.bind_some, Option.none_or]
      split_ifs <;> rfl

lemma rowStat_of_row {fs' : Fakefs H} {ino : ℕ} (hhost : fs'.host = fs.host)
    (hrow : (fs'.db.inodeReadStat ino).isSome = true) :
    e.rowStat fs' no ino =
      (e.host.fstat fs.host no).toOption.bind fun _ => fs'.db.inodeReadStat ino := by
  obtain ⟨st, hst⟩ := Option.isSome_iff_exists.1 hrow
  simp only [rowStat, hhost, hst, Option.some_or]

lemma rowStat_opened (e : OpenEnv H) (fs : Fakefs H) (flags mode : ℕ) (path : CString) (no : ℕ) :
    ((e.openedIno fs flags mode path no).1.bind fun ino =>
      e.rowStat (e.openedIno fs flags mode path no).2 no ino) =
        e.statHere fs flags mode path no := by
  unfold openedIno statHere
  simp only
  by_cases hhook : viaHook (fs.route path) = true
  · simp only [if_pos hhook, Option.bind_some]
  by_cases hino : fs.db.pathGetInode path ≠ 0
  · simp only [if_neg hhook, if_pos hino, Option.bind_some]
  by_cases hcreat : hasFlag flags oCreat = true
  · simp only [if_neg hhook, if_neg hino, if_pos hcreat, Option.bind_some]
    have hrow : (fs.db.pathCreate path (e.madeStat mode)).inodeReadStat fs.db.stats.nextKey =
        some (e.madeStat mode) := by
      simp [MetaDb.pathCreate, MetaDb.inodeReadStat]
    refine (rowStat_of_row rfl (Option.isSome_iff_exists.2 ⟨_, hrow⟩)).trans ?_
    simp only [hrow]
    cases e.host.fstat fs.host no <;> rfl
  simp only [if_neg hhook, if_neg hino, if_neg hcreat]
  by_cases hbind : isUnderBindMount fs.mounts path = true
  · by_cases hzero : (bindMountEnsureInode e.sys fs path).1 = 0
    · simp [hbind, hzero]
    · have hrow := (bindMountEnsureInode_row e.sys (not_not.1 hino)).resolve_left hzero
      simp only [hbind, hzero, if_false, if_true, Option.bind_some, ne_eq, not_false_eq_true,
        true_and]
      exact rowStat_of_row (bindMountEnsureInode_host _ _ _) hrow
  · simp [hbind]

lemma fakefsOpen_ok (mode : ℕ) (h : e.sys.openFile fs.host (fs.target path) flags = .ok (no, host))
    (hro : ¬ (writeIntent flags ∧ isUnderReadonlyBindMount fs.mounts path)) :
    fakefsOpen e.sys e.fileCred fs path flags mode =
      fakefsOpened e.sys e.fileCred { fs with host } path flags mode no := by
  unfold Fakefs.target at h
  rw [fakefsOpen, if_neg hro, h]

lemma genericOpenat_opened (mode : ℕ) (hflags : ¬ (hasFlag flags oRdwr ∧ hasFlag flags oWronly))
    (hpath : e.resolve raw flags = .ok path)
    (h : e.sys.openFile fs.host (fs.target path) flags = .ok (no, host))
    (hro : ¬ (writeIntent flags ∧ isUnderReadonlyBindMount fs.mounts path)) :
    (e.genericOpenat fs raw flags mode).2.host = host ∧
      match e.statHere { fs with host } flags mode path no with
      | none => ∃ err, (e.genericOpenat fs raw flags mode).1 = .error err
      | some st =>
        (e.Admits flags st → ∃ fd, (e.genericOpenat fs raw flags mode).1 = .ok fd ∧
          fakefsFstat e.host (e.genericOpenat fs raw flags mode).2 fd.realFd
            fd.fakeInode = .ok st) ∧
        (¬ e.Admits flags st → ∃ err, (e.genericOpenat fs raw flags mode).1 = .error err) := by
  have hopen := fakefsOpen_ok mode h hro
  obtain ⟨hrows, hino⟩ := fakefsOpened_ino e { fs with host } flags mode path no
  have hhost := openedIno_host e { fs with host } flags mode path no
  have hstat := rowStat_opened e { fs with host } flags mode path no
  rw [genericOpenat, if_neg hflags, hpath]
  simp only [hopen]
  generalize fakefsOpened e.sys e.fileCred { fs with host } path flags mode no = opened at *
  generalize e.openedIno { fs with host } flags mode path no = ino at *
  obtain ⟨result, fs'⟩ := opened
  obtain ⟨ino, fs''⟩ := ino
  obtain rfl : fs' = fs'' := hrows
  simp only at hhost hstat hino ⊢
  cases result with
  | error er =>
    obtain rfl : ino = none := by
      simpa [Except.toOption, eq_comm] using hino
    rw [← hstat]
    exact ⟨hhost, _, rfl⟩
  | ok fd =>
    obtain ⟨n, rfl, hfd⟩ : ∃ n, ino = some n ∧ (no, n) = (fd.realFd, fd.fakeInode) := by
      simpa [Except.toOption, eq_comm] using hino
    obtain ⟨rfl, rfl⟩ := Prod.mk.inj hfd
    refine ⟨hhost, ?_⟩
    rw [← hstat]
    simp only [Option.bind_some, ← toOption_fakefsFstat, openedFile]
    cases hfstat : fakefsFstat e.host fs' fd.realFd fd.fakeInode with
    | error er => exact ⟨_, rfl⟩
    | ok st =>
      simp only [Except.toOption, Admits]
      by_cases hmem : e.memory = true
      · cases hrefuse : openRefusal e.cred.toPathCred e.devOpen st flags with
        | none => exact ⟨fun _ => ⟨fd, by simp [hmem], hfstat⟩, fun hno => absurd ⟨hmem, rfl⟩ hno⟩
        | some er => exact ⟨fun hadmits => absurd hadmits.2 (by simp), fun _ => ⟨er, by simp [hmem]⟩⟩
      · exact ⟨fun hadmits => absurd hadmits.1 hmem, fun _ => ⟨.enomem, by simp [hmem]⟩⟩

end OpenEnv

/-! ### What a refused open has done -/

/-- `open(2)`: a file that is made or cut off is another one behind it, and else nothing changes.
A call that fails gives no new state. -/
structure PosixOpen (sys : HostCalls H) (view : H → HostPath → Option HostFile) : Prop where
  created : ∀ {h p flags no h'}, sys.openFile h p flags = .ok (no, h') → view h p = none →
    view h' p ≠ none
  truncated : ∀ {h p flags no h' f}, sys.openFile h p flags = .ok (no, h') → view h p = some f →
    hasFlag flags oTrunc = true → f.isDir = false → view h' p = some { f with data := [] }
  unchanged : ∀ {h p flags no h' f}, sys.openFile h p flags = .ok (no, h') → view h p = some f →
    (hasFlag flags oTrunc = true → f.isDir = false → f.data = []) → view h' = view h

def OpenCred.Permits (cred : OpenCred) (st : PathStat) (access : ℕ) : Prop :=
  cred.superuser = true ∨
    (if cred.euid = st.uid then st.mode >>> 6
      else if cred.egid = st.gid ∨ st.gid ∈ cred.groups then st.mode >>> 3
      else st.mode) &&& access = access

lemma PosixOpen.eq_iff {sys : HostCalls H} {view : H → HostPath → Option HostFile}
    (hposix : PosixOpen sys view) {h h' : H} {p : HostPath} {flags no : ℕ}
    (hopen : sys.openFile h p flags = .ok (no, h')) :
    view h' = view h ↔ ¬ OpenEnv.Loses view h p flags := by
  unfold OpenEnv.Loses
  cases hf : view h p with
  | none =>
    refine iff_of_false (fun heq => hposix.created hopen hf ?_) (not_not.2 trivial)
    rw [heq, hf]
  | some f =>
    simp only
    constructor
    · rintro heq ⟨htrunc, hdir, hdata⟩
      have hcut := hposix.truncated hopen hf htrunc hdir
      rw [heq, hf] at hcut
      exact hdata (congrArg HostFile.data (Option.some.inj hcut))
    · intro hno
      refine hposix.unchanged hopen hf fun htrunc hdir => ?_
      by_contra hdata
      exact hno ⟨htrunc, hdir, hdata⟩

namespace OpenEnv

variable {e : OpenEnv H} {fs : Fakefs H} {raw : CString} {flags mode : ℕ}

lemma genericOpenat_refused (mode : ℕ)
    (h : ∀ path no host, ¬ (hasFlag flags oRdwr ∧ hasFlag flags oWronly) →
      e.resolve raw flags = .ok path →
      ¬ (writeIntent flags ∧ isUnderReadonlyBindMount fs.mounts path) →
      e.sys.openFile fs.host (fs.target path) flags ≠ .ok (no, host)) :
    (e.genericOpenat fs raw flags mode).2 = fs ∧
      ∃ err, (e.genericOpenat fs raw flags mode).1 = .error err := by
  unfold genericOpenat
  split_ifs with hflags
  · exact ⟨rfl, _, rfl⟩
  cases hpath : e.resolve raw flags with
  | err er => exact ⟨rfl, _, rfl⟩
  | overflow => exact ⟨rfl, _, rfl⟩
  | outOfFuel => exact ⟨rfl, _, rfl⟩
  | ok path =>
    simp only [fakefsOpen]
    split_ifs with hro
    · exact ⟨rfl, _, rfl⟩
    cases hopen : e.sys.openFile fs.host (hostPathOf path (fs.route path)) flags with
    | error er => exact ⟨rfl, _, rfl⟩
    | ok r => exact absurd hopen (h path r.1 r.2 hflags hpath hro)

/-- An open that is refused has no effect, and one that succeeds on a file that exists has been
granted all it asks for, exactly where each file that the host makes or cuts off passes the checks
behind, and the check of a file that passes them has seen all of the access. -/
theorem openat_refused_iff (e : OpenEnv H) (fs : Fakefs H) (raw : CString)
    (flags mode : ℕ) {view : H → HostPath → Option HostFile} (hposix : PosixOpen e.sys view) :
    ((∀ err, (e.genericOpenat fs raw flags mode).1 = .error err →
        view (e.genericOpenat fs raw flags mode).2.host = view fs.host) ∧
      ∀ fd, (e.genericOpenat fs raw flags mode).1 = .ok fd →
        ∀ path, e.resolve raw flags = .ok path → view fs.host (fs.target path) ≠ none →
        ∀ st, fakefsFstat e.host (e.genericOpenat fs raw flags mode).2 fd.realFd
          fd.fakeInode = .ok st → e.cred.Permits st.toPathStat (accmode flags)) ↔
    ∀ path no host, ¬ (hasFlag flags oRdwr ∧ hasFlag flags oWronly) →
      e.resolve raw flags = .ok path →
      ¬ (writeIntent flags ∧ isUnderReadonlyBindMount fs.mounts path) →
      e.sys.openFile fs.host (fs.target path) flags = .ok (no, host) →
      (Loses view fs.host (fs.target path) flags →
        ∃ st, e.statHere { fs with host } flags mode path no = some st ∧ e.Admits flags st) ∧
      (view fs.host (fs.target path) ≠ none →
        ∀ st, e.statHere { fs with host } flags mode path no = some st → e.Admits flags st →
          e.cred.Permits st.toPathStat (accmode flags)) := by
  constructor
  · rintro ⟨hrefused, hgranted⟩ path no host hflags hpath hro hopen
    obtain ⟨hhost, hresult⟩ := genericOpenat_opened mode hflags hpath hopen hro
    have hloses {err : OpenErr} (h : (e.genericOpenat fs raw flags mode).1 = .error err) :
        ¬ Loses view fs.host (fs.target path) flags := by
      have heq := hrefused err h
      rw [hhost] at heq
      exact (hposix.eq_iff hopen).1 heq
    cases hstat : e.statHere { fs with host } flags mode path no with
    | none =>
      rw [hstat] at hresult
      obtain ⟨err, herr⟩ := hresult
      exact ⟨fun hl => absurd hl (hloses herr), fun _ st hst => by cases hst⟩
    | some st =>
      rw [hstat] at hresult
      obtain ⟨hadmitted, hdenied⟩ := hresult
      refine ⟨fun hl => ⟨st, rfl, ?_⟩, fun hexists st' hst' hadmits => ?_⟩
      · by_contra hno
        obtain ⟨err, herr⟩ := hdenied hno
        exact hloses herr hl
      · obtain rfl := Option.some.inj hst'
        obtain ⟨fd, hfd, hfstat⟩ := hadmitted hadmits
        exact hgranted fd hfd path hpath hexists st hfstat
  · intro h
    by_cases hasked : ∃ path no host, ¬ (hasFlag flags oRdwr ∧ hasFlag flags oWronly) ∧
        e.resolve raw flags = .ok path ∧
        ¬ (writeIntent flags ∧ isUnderReadonlyBindMount fs.mounts path) ∧
        e.sys.openFile fs.host (fs.target path) flags = .ok (no, host)
    · obtain ⟨path, no, host, hflags, hpath, hro, hopen⟩ := hasked
      obtain ⟨hkept, hpermits⟩ := h path no host hflags hpath hro hopen
      obtain ⟨hhost, hresult⟩ := genericOpenat_opened mode hflags hpath hopen hro
      constructor
      · intro err herr
        rw [hhost]
        refine (hposix.eq_iff hopen).2 fun hl => ?_
        obtain ⟨st, hst, hadmits⟩ := hkept hl
        rw [hst] at hresult
        obtain ⟨fd, hfd, -⟩ := hresult.1 hadmits
        rw [herr] at hfd
        cases hfd
      · intro fd hfd path' hpath' hexists st hfstat
        obtain rfl := PathResult.ok.inj (hpath.symm.trans hpath')
        cases hstat : e.statHere { fs with host } flags mode path no with
        | none =>
          rw [hstat] at hresult
          obtain ⟨err, herr⟩ := hresult
          rw [hfd] at herr
          cases herr
        | some st' =>
          rw [hstat] at hresult
          have hadmits : e.Admits flags st' := by
            by_contra hno
            obtain ⟨err, herr⟩ := hresult.2 hno
            rw [hfd] at herr
            cases herr
          obtain ⟨fd', hfd', hfstat'⟩ := hresult.1 hadmits
          obtain rfl := Except.ok.inj (hfd.symm.trans hfd')
          obtain rfl := Except.ok.inj (hfstat.symm.trans hfstat')
          exact hpermits hexists st hstat hadmits
    · have hnone : ∀ path no host, ¬ (hasFlag flags oRdwr ∧ hasFlag flags oWronly) →
          e.resolve raw flags = .ok path →
          ¬ (writeIntent flags ∧ isUnderReadonlyBindMount fs.mounts path) →
          e.sys.openFile fs.host (fs.target path) flags ≠ .ok (no, host) :=
        fun path no host hflags hpath hro hopen => hasked ⟨path, no, host, hflags, hpath, hro, hopen⟩
      obtain ⟨hsame, err, herr⟩ := genericOpenat_refused mode hnone
      rw [hsame, herr]
      exact ⟨fun _ _ => rfl, fun fd hfd => by cases hfd⟩

end OpenEnv

/-! ### Files that are cut off and files that are only read -/

def HostCalls.files : HostCalls (HostPath → Option HostFile) where
  mkdir _ _ := .error (-1)
  unlink h p := if (h p).isSome then .ok (update h p none) else .error (-2)
  rmdir _ _ := .error (-1)
  link _ _ _ := .error (-1)
  rename _ _ _ := .error (-1)
  mkfifo _ _ := .error (-1)
  create _ _ := .error (-1)
  write _ _ _ := .error (-1)
  close _ := .ok ()
  openFile h p flags :=
    match h p with
    | none => if hasFlag flags oCreat then .ok (3, update h p (some ⟨false, []⟩)) else .error (-2)
    | some f =>
      if hasFlag flags oCreat ∧ hasFlag flags oExcl then .error eexist
      else if f.isDir then
        if hasFlag flags (oWronly ||| oRdwr ||| oTrunc) then .error (-21) else .ok (3, h)
      else .ok (3, if hasFlag flags oTrunc then update h p (some { f with data := [] }) else h)
  fstatIno _ _ := none
  lstat h p := (h p).map fun f => if f.isDir then .dir else .other
  stat h p := (h p).map fun f => if f.isDir then .dir else .other
  setattr _ _ _ _ := .error (-1)
  fsetattr _ _ _ := .error (-1)
  utime _ _ _ _ _ := .error (-1)

lemma posixOpen_files : PosixOpen .files fun h p => h p where
  created {h p flags no h'} hopen hnone := by
    simp only [HostCalls.files, hnone] at hopen
    split_ifs at hopen
    obtain ⟨-, rfl⟩ := Prod.mk.inj (Except.ok.inj hopen)
    simp
  truncated {h p flags no h' f} hopen hf htrunc hdir := by
    simp only [HostCalls.files, hf, hdir, htrunc, if_true, Bool.false_eq_true, if_false] at hopen
    split_ifs at hopen
    obtain ⟨-, rfl⟩ := Prod.mk.inj (Except.ok.inj hopen)
    simp [hdir]
  unchanged {h p flags no h' f} hopen hf hkeep := by
    simp only [HostCalls.files, hf] at hopen
    split_ifs at hopen with hexcl hdir hwrite htrunc
    · exact (Prod.mk.inj (Except.ok.inj hopen)).2.symm
    · obtain ⟨-, rfl⟩ := Prod.mk.inj (Except.ok.inj hopen)
      have hdata := hkeep htrunc (by simpa using hdir)
      funext q
      by_cases hq : q = p
      · simp [hq, hf, ← hdata]
      · simp [hq]
    · exact (Prod.mk.inj (Except.ok.inj hopen)).2.symm

/-- A file `/f`. -/
def fileTree : FileTree where
  node path :=
    if path = [] then some (.object { uid := 0, gid := 0, mode := 0x41ed })
    else if path = ['/', 'f'] then some (.object { uid := 0, gid := 0, mode := 0x81a4 })
    else none
  leaf := by
    intro path nd rest hnd hdir
    split_ifs at hnd with hroot hfile
    · obtain rfl := Option.some.inj hnd
      exact absurd hdir (by decide)
    · simp [hfile]

lemma isName_of_mem_nil : ∀ c ∈ ([] : List CString), IsName c := by simp

lemma joinPath_nil_fits : (joinPath []).length < maxPath := by decide

def fileRoot : Directory fileTree where
  names := []
  isName := isName_of_mem_nil
  isDir := ⟨.object { uid := 0, gid := 0, mode := 0x41ed }, by decide⟩
  fits := joinPath_nil_fits

def openEnv : OpenEnv (HostPath → Option HostFile) where
  sys := .files
  host := ⟨fun _ _ => .ok ⟨sIfreg ||| 0o666, 501, 20, 0⟩, fun _ _ => none⟩
  tree := fileTree
  cache _ := none
  root := fileRoot
  dir := fileRoot
  now := 0
  later := 0
  cred := ⟨⟨1000, 1000⟩, []⟩
  devOpen _ := none
  memory := true

/-- A file `/f` with an `x` in it. -/
def oneFile (mode uid : ℕ) : Fakefs (HostPath → Option HostFile) where
  mounts _ := .unused
  hook := none
  db := ⟨FinMap.empty.set ['/', 'f'] 1, FinMap.empty.set 1 ⟨sIfreg ||| mode, uid, uid, 0⟩⟩
  host := update (fun _ => none) (.root ['/', 'f']) (some ⟨false, ['x']⟩)
  inUse _ := false

theorem openat_refused_iff_oneFile :
    ((∀ err, (openEnv.genericOpenat (oneFile 0o644 1000) ['/', 'f'] oWronly 0).1 = .error err →
        (openEnv.genericOpenat (oneFile 0o644 1000) ['/', 'f'] oWronly 0).2.host =
          (oneFile 0o644 1000).host) ∧
      ∀ fd, (openEnv.genericOpenat (oneFile 0o644 1000) ['/', 'f'] oWronly 0).1 = .ok fd →
        ∀ path, openEnv.resolve ['/', 'f'] oWronly = .ok path →
        (oneFile 0o644 1000).host ((oneFile 0o644 1000).target path) ≠ none →
        ∀ st, fakefsFstat openEnv.host
          (openEnv.genericOpenat (oneFile 0o644 1000) ['/', 'f'] oWronly 0).2 fd.realFd
          fd.fakeInode = .ok st → openEnv.cred.Permits st.toPathStat (accmode oWronly)) ∧
    ∃ fd, (openEnv.genericOpenat (oneFile 0o644 1000) ['/', 'f'] oWronly 0).1 = .ok fd := by
  refine ⟨(openEnv.openat_refused_iff (oneFile 0o644 1000) ['/', 'f'] oWronly 0
    posixOpen_files).2 ?_, _, rfl⟩
  intro path no host _ hpath _ hopen
  obtain rfl : ['/', 'f'] = path := PathResult.ok.inj hpath
  have htarget : (oneFile 0o644 1000).target ['/', 'f'] = .root ['/', 'f'] := rfl
  obtain ⟨rfl, rfl⟩ := Prod.mk.inj (Except.ok.inj hopen)
  refine ⟨fun hl => ?_, fun _ st hst _ => ?_⟩
  · rw [htarget] at hl
    exact absurd hl.1 (by decide)
  · obtain rfl : (⟨sIfreg ||| 0o644, 1000, 1000, 0⟩ : IshStat) = st := Option.some.inj hst
    exact .inr (by decide)

/-- Writing to root's file is refused, and the file is empty behind it; and one that may only be
read is opened for reading and writing. -/
theorem openat_cuts_refused :
    (openEnv.genericOpenat (oneFile 0o644 0) ['/', 'f'] (oWronly ||| oTrunc) 0).1 =
      .error .eacces ∧
    (openEnv.genericOpenat (oneFile 0o644 0) ['/', 'f'] (oWronly ||| oTrunc) 0).2.host
      (.root ['/', 'f']) = some ⟨false, []⟩ ∧
    (∃ fd, (openEnv.genericOpenat (oneFile 0o444 1000) ['/', 'f'] oRdwr 0).1 = .ok fd ∧
      fakefsFstat openEnv.host
        (openEnv.genericOpenat (oneFile 0o444 1000) ['/', 'f'] oRdwr 0).2 fd.realFd
        fd.fakeInode = .ok ⟨sIfreg ||| 0o444, 1000, 1000, 0⟩) ∧
    ¬ openEnv.cred.Permits ⟨1000, 1000, sIfreg ||| 0o444⟩ (accmode oRdwr) ∧
    ¬ ∀ (e : OpenEnv (HostPath → Option HostFile)) (fs : Fakefs (HostPath → Option HostFile))
      (raw : CString) (flags mode : ℕ), PosixOpen e.sys (fun h p => h p) →
      ∀ err, (e.genericOpenat fs raw flags mode).1 = .error err →
        (e.genericOpenat fs raw flags mode).2.host = fs.host := by
  have hrefused : (openEnv.genericOpenat (oneFile 0o644 0) ['/', 'f'] (oWronly ||| oTrunc)
      0).1 = .error .eacces := rfl
  have hcut : (openEnv.genericOpenat (oneFile 0o644 0) ['/', 'f'] (oWronly ||| oTrunc)
      0).2.host (.root ['/', 'f']) = some ⟨false, []⟩ := rfl
  refine ⟨hrefused, hcut, ⟨_, rfl, rfl⟩, ?_, fun h => ?_⟩
  · rintro (hroot | hbits)
    · cases hroot
    · exact absurd hbits (by decide)
  · have hsame := h openEnv (oneFile 0o644 0) ['/', 'f'] (oWronly ||| oTrunc) 0 posixOpen_files
      _ hrefused
    rw [hsame] at hcut
    exact absurd hcut (by decide)

end ShellBox
