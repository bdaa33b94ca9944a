import ShellBox.Fs.BindMount

/-!
# The fake filesystem

Files are files of the host under the root of the mount, and what the guest sees of their owner,
mode and type is in the metadata database. An operation asks the host first and writes the
database then, or the other way round, inside one transaction that is rolled back if the host
refuses. Paths under a bind mount go to the host path of the mount; paths a hook has routed
bypass the database.

The system calls of the host are parameters.
-/

namespace ShellBox

/-- A path the host is asked for: below the root of the mount (`fix_path`), or absolute. -/
inductive HostPath
  | root (path : CString)
  | abs (path : CString)
  deriving DecidableEq

/-- The file types `bind_mount_ensure_inode` tells apart. -/
inductive HostKind
  | dir | lnk | other
  deriving DecidableEq

/-- `struct attr`. -/
inductive Attr
  | uid (n : ℕ)
  | gid (n : ℕ)
  | mode (n : ℕ)
  | size (n : ℤ)
  deriving DecidableEq

structure HostCalls (H : Type*) where
  mkdir : H → HostPath → Except ℤ H
  unlink : H → HostPath → Except ℤ H
  rmdir : H → HostPath → Except ℤ H
  link : H → HostPath → HostPath → Except ℤ H
  rename : H → HostPath → HostPath → Except ℤ H
  mkfifo : H → HostPath → Except ℤ H
  /-- `open` with `O_CREAT | O_EXCL`. -/
  create : H → HostPath → Except ℤ H
  write : H → HostPath → CString → Except ℤ H
  /-- What closing a new file says. -/
  close : H → Except ℤ Unit
  /-- `open`, giving a descriptor. -/
  openFile : H → HostPath → ℕ → Except ℤ (ℕ × H)
  fstatIno : H → ℕ → Option ℕ
  lstat : H → HostPath → Option HostKind
  stat : H → HostPath → Option HostKind
  setattr : H → HostPath → Attr → Bool → Except ℤ H
  fsetattr : H → ℕ → Attr → Except ℤ H
  utime : H → HostPath → ℤ → ℤ → Bool → Except ℤ H

inductive FsErr
  | erofs | exdev | enoent | eperm
  | host (e : ℤ)
  /-- The program is aborted. -/
  | died
  deriving DecidableEq

structure Fakefs (H : Type*) where
  mounts : BindTable
  hook : TranslateHook
  db : MetaDb
  host : H
  /-- The inodes with inode data in memory. -/
  inUse : ℕ → Bool

/-- `current->euid` and `current->egid`. -/
structure Cred where
  euid : ℕ
  egid : ℕ

structure FakeFd where
  path : CString
  changePath : Option CString
  realFd : ℕ
  fakeInode : ℕ
  opened : changePath = none ∨ changePath = some path

/-- `_EEXIST` and `_EPERM`. -/
def eexist : ℤ := -17
def hostEperm : ℤ := -1

def sIfmt : ℕ := 0o170000
def sIfreg : ℕ := 0o100000
def sIfdir : ℕ := 0o040000
def sIflnk : ℕ := 0o120000
def sIfblk : ℕ := 0o060000
def sIfchr : ℕ := 0o020000
def sIfifo : ℕ := 0o010000
def sIfsock : ℕ := 0o140000

def oCreat : ℕ := 1 <<< 6

/-- `O_WRONLY_ | O_RDWR_ | O_CREAT_ | O_TRUNC_ | O_APPEND_`. -/
def oWriteIntent : ℕ := 1 <<< 0 ||| 1 <<< 1 ||| oCreat ||| 1 <<< 9 ||| 1 <<< 10

def writeIntent (flags : ℕ) : Bool := flags &&& oWriteIntent ≠ 0

variable {H : Type*} (sys : HostCalls H) (cred : Cred) (fs : Fakefs H)

/-- Where `bind_mount_translate_path_ex` sends a path, and whether the hook did. -/
def Fakefs.route (path : CString) : Option (CString × Bool) :=
  bindMountTranslatePathEx fs.hook fs.mounts path pathMax

def viaHook : Option (CString × Bool) → Bool
  | some (_, hooked) => hooked
  | none => false

def hostPathOf (path : CString) : Option (CString × Bool) → HostPath
  | some (out, _) => .abs out
  | none => .root path

def Fakefs.onHost : Except ℤ H → Option FsErr × Fakefs H
  | .ok host => (none, { fs with host })
  | .error e => (some (.host e), fs)

def Fakefs.inodeCheckOrphaned (inode : ℕ) : Fakefs H :=
  if fs.inUse inode then fs else { fs with db := fs.db.tryCleanupInode inode }

def bindMountEnsureInode (path : CString) : ℕ × Fakefs H :=
  let ino := fs.db.pathGetInode path
  if ino ≠ 0 then (ino, fs)
  else
    let kind := match fs.route path with
      | some (out, _) => sys.lstat fs.host (.abs out)
      | none => (sys.lstat fs.host (.root path)).or (sys.stat fs.host (.root path))
    match kind with
    | none => (0, fs)
    | some kind =>
      let mode := match kind with
        | .dir => sIfdir ||| 0o755
        | .lnk => sIflnk ||| 0o777
        | .other => sIfreg ||| 0o644
      let stat := { mode, uid := 0, gid := 0, rdev := 0 }
      (fs.db.stats.nextKey, { fs with db := fs.db.pathCreate path stat })

/-- `fakefs_open`, behind the open of the host file. -/
def fakefsOpened (path : CString) (flags mode no : ℕ) : Except FsErr FakeFd × Fakefs H :=
  let fd (ino : ℕ) : FakeFd :=
    if writeIntent flags then ⟨path, some path, no, ino, Or.inr rfl⟩
    else ⟨path, none, no, ino, Or.inl rfl⟩
  if viaHook (fs.route path) then (.ok (fd ((sys.fstatIno fs.host no).getD 1)), fs)
  else
    let ino := fs.db.pathGetInode path
    if ino ≠ 0 then (.ok (fd ino), fs)
    else if flags &&& oCreat ≠ 0 then
      let stat := { mode := mode ||| sIfreg, uid := cred.euid, gid := cred.egid, rdev := 0 }
      (.ok (fd fs.db.stats.nextKey), { fs with db := fs.db.pathCreate path stat })
    else if isUnderBindMount fs.mounts path then
      let made := bindMountEnsureInode sys fs path
      if made.1 = 0 then (.error .enoent, made.2) else (.ok (fd made.1), made.2)
    else (.error .enoent, fs)

def fakefsOpen (path : CString) (flags mode : ℕ) : Except FsErr FakeFd × Fakefs H :=
  if writeIntent flags ∧ isUnderReadonlyBindMount fs.mounts path then (.error .erofs, fs)
  else
    match sys.openFile fs.host (hostPathOf path (fs.route path)) flags with
    | .error e => (.error (.host e), fs)
    | .ok (no, host) => fakefsOpened sys cred { fs with host } path flags mode no

def fakefsLink (src dst : CString) : Option FsErr × Fakefs H :=
  if isUnderReadonlyBindMount fs.mounts dst then (some .erofs, fs)
  else
    let srcRoute := fs.route src
    let dstRoute := fs.route dst
    if viaHook srcRoute ≠ viaHook dstRoute then (some .exdev, fs)
    else if viaHook srcRoute then
      fs.onHost (sys.link fs.host (hostPathOf src srcRoute) (hostPathOf dst dstRoute))
    else
      match sys.link fs.host (.root src) (.root dst) with
      | .error e => (some (.host e), fs)
      | .ok host =>
        match fs.db.pathLink src dst with
        | some db => (none, { fs with host, db })
        | none => (some .died, { fs with host })

/-- `fakefs_unlink` and `fakefs_rmdir` differ in the call of the host. -/
def fakefsRemove (call : H → HostPath → Except ℤ H) (path : CString) : Option FsErr × Fakefs H :=
  if isUnderReadonlyBindMount fs.mounts path then (some .erofs, fs)
  else
    let route := fs.route path
    if viaHook route then fs.onHost (call fs.host (hostPathOf path route))
    else
      let fs := if isUnderBindMount fs.mounts path then (bindMountEnsureInode sys fs path).2 else fs
      match call fs.host (hostPathOf path route) with
      | .error e => (some (.host e), fs)
      | .ok host =>
        let unlinked := fs.db.pathUnlink path
        (none, { fs with host, db := unlinked.2 }.inodeCheckOrphaned unlinked.1)

def fakefsUnlink (path : CString) : Option FsErr × Fakefs H := fakefsRemove sys fs sys.unlink path

def fakefsRmdir (path : CString) : Option FsErr × Fakefs H := fakefsRemove sys fs sys.rmdir path

def fakefsRename (src dst : CString) : Option FsErr × Fakefs H :=
  if isUnderReadonlyBindMount fs.mounts src ∨ isUnderReadonlyBindMount fs.mounts dst then
    (some .erofs, fs)
  else
    let srcRoute := fs.route src
    let dstRoute := fs.route dst
    if srcRoute.isSome ≠ dstRoute.isSome ∨ viaHook srcRoute ≠ viaHook dstRoute then
      (some .exdev, fs)
    else if viaHook srcRoute then
      fs.onHost (sys.rename fs.host (hostPathOf src srcRoute) (hostPathOf dst dstRoute))
    else
      let db := fs.db.pathRename src dst
      match sys.rename fs.host (hostPathOf src srcRoute) (hostPathOf dst dstRoute) with
      | .error e => (some (.host e), fs)
      | .ok host => (none, { fs with host, db })

/-- `fakefs_symlink`: the text of the link is the content of a file. -/
def fakefsSymlink (target link : CString) : Option FsErr × Fakefs H :=
  if isUnderReadonlyBindMount fs.mounts link then (some .erofs, fs)
  else if viaHook (fs.route link) then (some .eperm, fs)
  else
    match sys.create fs.host (.root link) with
    | .error e => (some (.host e), fs)
    | .ok host =>
      match sys.write host (.root link) target with
      | .error e =>
        match sys.unlink host (.root link) with
        | .ok host => (some (.host e), { fs with host })
        | .error _ => (some (.host e), { fs with host })
      | .ok host =>
        let stat := { mode := sIflnk ||| 0o777, uid := cred.euid, gid := cred.egid, rdev := 0 }
        (none, { fs with host, db := fs.db.pathCreate link stat })

/-- `realfs_mknod`; a file that is made stays, whatever closing it says. -/
def realfsMknod (host : H) (path : CString) (mode : ℕ) : Except ℤ Unit × H :=
  if mode &&& sIfmt = sIfifo then
    match sys.mkfifo host (.root path) with
    | .error e => (.error e, host)
    | .ok host => (.ok (), host)
  else if mode &&& sIfmt = sIfreg then
    match sys.create host (.root path) with
    | .error e => (.error e, host)
    | .ok host => (sys.close host, host)
  else (.error hostEperm, host)

def fakefsMknod (path : CString) (mode dev : ℕ) : Option FsErr × Fakefs H :=
  if isUnderReadonlyBindMount fs.mounts path then (some .erofs, fs)
  else
    let type := mode &&& sIfmt
    let realMode :=
      if type = sIfblk ∨ type = sIfchr ∨ type = sIfsock then 0o666 ||| sIfreg else 0o666 ||| type
    let made := realfsMknod sys fs.host path realMode
    let fs := { fs with host := made.2 }
    let row : Option FsErr × Fakefs H :=
      if fs.db.pathGetInode path = 0 then
        let rdev := if type = sIfblk ∨ type = sIfchr then dev else 0
        let stat := { mode, uid := cred.euid, gid := cred.egid, rdev }
        (none, { fs with db := fs.db.pathCreate path stat })
      else (none, fs)
    match made.1 with
    | .ok () => row
    | .error e => if e = eexist then row else (some (.host e), fs)

def fakefsMkdir (path : CString) (mode : ℕ) : Option FsErr × Fakefs H :=
  if isUnderReadonlyBindMount fs.mounts path then (some .erofs, fs)
  else
    let route := fs.route path
    if viaHook route then fs.onHost (sys.mkdir fs.host (hostPathOf path route))
    else
      match sys.mkdir fs.host (hostPathOf path route) with
      | .error e => (some (.host e), fs)
      | .ok host =>
        let stat := { mode := mode ||| sIfdir, uid := cred.euid, gid := cred.egid, rdev := 0 }
        (none, { fs with host, db := fs.db.pathCreate path stat })

def fakefsUtime (path : CString) (atime mtime : ℤ) (followLinks : Bool) :
    Option FsErr × Fakefs H :=
  if isUnderReadonlyBindMount fs.mounts path then (some .erofs, fs)
  else fs.onHost (sys.utime fs.host (.root path) atime mtime followLinks)

/-- `fake_stat_setattr`; a size is handled before. -/
def fakeStatSetattr (stat : IshStat) : Attr → IshStat
  | .uid n => { stat with uid := n }
  | .gid n => { stat with gid := n }
  | .mode n => { stat with mode := stat.mode &&& sIfmt ||| n &&& (0xffffffff ^^^ sIfmt) }
  | .size _ => stat

/-- What the host does where there is no row: an owner cannot be changed. -/
def setattrUntracked (call : Attr → Except ℤ H) : Attr → Option FsErr × Fakefs H
  | .uid _ => (none, fs)
  | .gid _ => (none, fs)
  | .mode n => fs.onHost (call (.mode n))
  | .size n => fs.onHost (call (.size n))

def fakefsSetattr (path : CString) (attr : Attr) (followLinks : Bool) : Option FsErr × Fakefs H :=
  if isUnderReadonlyBindMount fs.mounts path then (some .erofs, fs)
  else
    let route := fs.route path
    if viaHook route then
      setattrUntracked fs (fun attr => sys.setattr fs.host (hostPathOf path route) attr true) attr
    else
      match attr with
      | .size n => fs.onHost (sys.setattr fs.host (.root path) (.size n) followLinks)
      | attr =>
        match fs.db.pathReadStat path with
        | some (inode, stat) =>
          (none, { fs with db := fs.db.inodeWriteStat inode (fakeStatSetattr stat attr) })
        | none =>
          if isUnderBindMount fs.mounts path then
            let made := bindMountEnsureInode sys fs path
            match made.2.db.pathReadStat path with
            | some (inode, stat) =>
              (none, { made.2 with
                db := made.2.db.inodeWriteStat inode (fakeStatSetattr stat attr) })
            | none => (some .enoent, made.2)
          else (some .enoent, fs)

def fakefsFsetattr (fd : FakeFd) (attr : Attr) : Option FsErr × Fakefs H :=
  if fd.changePath.any (isUnderReadonlyBindMount fs.mounts) then (some .erofs, fs)
  else
    match attr with
    | .size n => fs.onHost (sys.fsetattr fs.host fd.realFd (.size n))
    | attr =>
      match fs.db.inodeReadStat fd.fakeInode with
      | none => setattrUntracked fs (fun attr => sys.fsetattr fs.host fd.realFd attr) attr
      | some stat =>
        (none, { fs with db := fs.db.inodeWriteStat fd.fakeInode (fakeStatSetattr stat attr) })

end ShellBox
