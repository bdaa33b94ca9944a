import ShellBox.Fs.TmpfsFile
import ShellBox.Logic.Loop

/-!
# The entries of a tmpfs

Directory entries and inodes are counted separately. An entry holds its inode and its parent, the
tree holds each entry that is linked into it, and a descriptor holds its entry and, for a directory,
the entry that is read next.

An access to an entry or inode that has been freed, or through an error that is taken for a
pointer, has no result.
-/

namespace ShellBox

open Function

abbrev TmpName := List UInt8

structure TmpInode where
  dir : Bool
  count : ℕ

structure TmpDirent where
  name : TmpName
  inode : ℕ
  index : ℕ
  parent : Option ℕ
  children : List ℕ
  nextIndex : ℕ
  count : ℕ

/-- What of `struct fd` concerns a tmpfs, with its number. -/
structure TmpFd where
  num : ℕ
  dirent : ℕ
  pos : Option ℕ

/-- The live entries and inodes, the descriptors, and the next new ones. `root` is `none` when the
file system is not mounted. -/
structure TmpTree where
  root : Option ℕ
  dirent : ℕ → Option TmpDirent
  inode : ℕ → Option TmpInode
  fds : List TmpFd
  nextDirent : ℕ
  nextInode : ℕ
  nextFd : ℕ

def tmpEnotdir : ℤ := -20
def tmpEnoent : ℤ := -2
def tmpEexist : ℤ := -17
def tmpEbusy : ℤ := -16
def tmpEnametoolong : ℤ := -36

def tmpMaxName : ℕ := 256

namespace TmpTree

variable (s : TmpTree)

def setDirent (d : ℕ) (r : Option TmpDirent) : TmpTree := { s with dirent := update s.dirent d r }

def setInode (i : ℕ) (x : Option TmpInode) : TmpTree := { s with inode := update s.inode i x }

/-! ### Counts -/

/-- `tmp_inode_retain` -/
def retainInode (i : ℕ) : Option TmpTree :=
  (s.inode i).map fun x => s.setInode i (some { x with count := x.count + 1 })

/-- `tmp_inode_release` -/
def releaseInode (i : ℕ) : Option TmpTree :=
  (s.inode i).map fun x =>
    if x.count = 1 then s.setInode i none
    else s.setInode i (some { x with count := x.count - 1 })

/-- `tmp_dirent_retain` -/
def retain (d : ℕ) : Option TmpTree :=
  (s.dirent d).map fun r => s.setDirent d (some { r with count := r.count + 1 })

/-- `list_remove` from the list of the parent. -/
def unlink (d : ℕ) (parent : Option ℕ) : TmpTree :=
  match parent with
  | none => s
  | some p =>
    match s.dirent p with
    | none => s
    | some r => s.setDirent p (some { r with children := r.children.erase d })

/-- `tmp_dirent_release` with `tmp_dirent_cleanup`, which releases the parent. -/
def releaseUp : ℕ → ℕ → TmpTree → Option TmpTree
  | 0, _, _ => none
  | fuel + 1, d, s =>
    (s.dirent d).bind fun r =>
      if r.count = 1 then
        ((s.unlink d r.parent).releaseInode r.inode).bind fun s =>
          (match r.parent with
            | none => some s
            | some p => releaseUp fuel p s).map fun (s : TmpTree) => s.setDirent d none
      else some (s.setDirent d (some { r with count := r.count - 1 }))

def release (d : ℕ) : Option TmpTree := releaseUp (s.nextDirent + 1) d s

def retainPos : Option ℕ → Option TmpTree
  | none => some s
  | some d => s.retain d

def releasePos : Option ℕ → Option TmpTree
  | none => some s
  | some d => s.release d

/-! ### Lookup -/

def findChild (name : TmpName) : List ℕ → Option (Option ℕ)
  | [] => some none
  | c :: cs =>
    match s.dirent c with
    | none => none
    | some r => if r.name = name then some (some c) else findChild name cs

def isDir (d : ℕ) : Option Bool := (s.dirent d).bind fun r => (s.inode r.inode).map TmpInode.dir

/-- `tmpfs_dir_lookup` -/
def dirLookup (d : ℕ) (name : TmpName) : Option (TmpTree × Except ℤ ℕ) :=
  (s.dirent d).bind fun r => (s.isDir d).bind fun dir =>
    if ¬ dir then some (s, .error tmpEnotdir)
    else
      (s.findChild name r.children).bind fun c =>
        match c with
        | none => some (s, .error tmpEnoent)
        | some c => (s.retain c).map fun s => (s, .ok c)

/-- The loop of `__tmpfs_lookup`, which has a reference on `d`. A component that is too long ends it
with an error, and the reference stays. -/
def walk (parent : Bool) : List TmpName → ℕ → TmpTree → Option (TmpTree × Except ℤ (ℕ × TmpName))
  | [], d, s => some (s, .ok (d, []))
  | c :: cs, d, s =>
    if tmpMaxName ≤ c.length then some (s, .error tmpEnametoolong)
    else if parent ∧ cs = [] then some (s, .ok (d, c))
    else
      (s.dirLookup d c).bind fun r => (r.1.release d).bind fun s =>
        match r.2 with
        | .error e => some (s, .error e)
        | .ok child => walk parent cs child s

/-- `tmpfs_lookup` and `tmpfs_lookup_parent`. A path comes without the mount point, so that the root
is the empty path, and never `/`. -/
def lookup (parent : Bool) (path : List TmpName) : Option (TmpTree × Except ℤ (ℕ × TmpName)) :=
  s.root.bind fun root => (s.retain root).bind fun s => walk parent path root s

/-! ### Making entries -/

def newInode (dir : Bool) : TmpTree :=
  { s.setInode s.nextInode (some ⟨dir, 1⟩) with nextInode := s.nextInode + 1 }

/-- `tmpfs_dir_link`, which releases the inode when it fails, and retains it when it does not. `out`
is whether the caller gets a reference. -/
def dirLink (d : ℕ) (name : TmpName) (inode : ℕ) (alloc out : Bool) :
    Option (TmpTree × Except ℤ ℕ) :=
  (s.dirent d).bind fun r => (s.isDir d).bind fun dir =>
    if ¬ dir then (s.releaseInode inode).map (·, .error tmpEnotdir)
    else if ¬ alloc then (s.releaseInode inode).map (·, .error tmpEnomem)
    else
      (s.retainInode inode).map fun s =>
        ({ (s.setDirent d (some { r with
              nextIndex := r.nextIndex + 1
              count := r.count + 1
              children := r.children ++ [s.nextDirent] })).setDirent s.nextDirent
            (some ⟨name, inode, r.nextIndex, some d, [], 0, if out then 2 else 1⟩) with
          nextDirent := s.nextDirent + 1 }, .ok s.nextDirent)

/-- What `tmpfs_open` does with `O_CREAT` in the parent, until it releases it. -/
def openIn (p : ℕ) (name : TmpName) (excl allocInode allocDirent : Bool) :
    Option (TmpTree × Except ℤ ℕ) :=
  (s.dirLookup p name).bind fun r =>
    match r.2 with
    | .ok d => if excl then (r.1.release d).map (·, .error tmpEexist) else some (r.1, .ok d)
    | .error e =>
      if e ≠ tmpEnoent then some (r.1, .error e)
      -- The error that the lookup has returned is released.
      else if ¬ allocInode then none
      else
        ((r.1.newInode false).dirLink p name r.1.nextInode allocDirent true).bind fun l =>
          (l.1.releaseInode r.1.nextInode).bind fun s =>
            match l.2 with
            | .ok d => some (s, .ok d)
            | .error _ => none

def openFd (d : ℕ) (allocFd : Bool) : Option (TmpTree × ℤ) :=
  if ¬ allocFd then (s.release d).map (·, tmpEnomem)
  else
    (s.dirent d).bind fun r =>
      (s.retainPos r.children.head?).map fun (s : TmpTree) =>
        ({ s with
          fds := ⟨s.nextFd, d, r.children.head?⟩ :: s.fds
          nextFd := s.nextFd + 1 }, s.nextFd)

/-- `tmpfs_open` with `O_CREAT`, once it has the parent. -/
def openCreat (p : ℕ) (name : TmpName) (excl allocInode allocDirent allocFd : Bool) :
    Option (TmpTree × ℤ) :=
  (s.openIn p name excl allocInode allocDirent).bind fun r => (r.1.release p).bind fun s =>
    match r.2 with
    | .error e => some (s, e)
    | .ok d => s.openFd d allocFd

/-- `tmpfs_open` -/
def openPath (path : List TmpName) (creat excl allocInode allocDirent allocFd : Bool) :
    Option (TmpTree × ℤ) :=
  (s.lookup creat path).bind fun r =>
    match r.2 with
    | .error e => some (r.1, e)
    | .ok (d, name) =>
      if creat then r.1.openCreat d name excl allocInode allocDirent allocFd
      else r.1.openFd d allocFd

/-- What `tmpfs_mkdir` does in the parent. It does not release the inode that it has made. -/
def mkdirIn (p : ℕ) (name : TmpName) (allocInode allocDirent : Bool) : Option (TmpTree × ℤ) :=
  (s.dirLookup p name).bind fun r =>
    match r.2 with
    | .ok d => (r.1.release d).map (·, tmpEexist)
    | .error e =>
      if e ≠ tmpEnoent then some (r.1, e)
      else if ¬ allocInode then some (r.1, tmpEnomem)
      else
        ((r.1.newInode true).dirLink p name r.1.nextInode allocDirent false).map fun l =>
          match l.2 with
          | .ok _ => (l.1, 0)
          | .error e => (l.1, e)

/-- `tmpfs_mkdir` -/
def mkdir (path : List TmpName) (allocInode allocDirent : Bool) : Option (TmpTree × ℤ) :=
  (s.lookup true path).bind fun r =>
    match r.2 with
    | .error e => some (r.1, e)
    | .ok (p, name) =>
      (r.1.mkdirIn p name allocInode allocDirent).bind fun r => (r.1.release p).map (·, r.2)

/-- `tmpfs_stat` -/
def stat (path : List TmpName) : Option (TmpTree × ℤ) :=
  (s.lookup false path).bind fun r =>
    match r.2 with
    | .error e => some (r.1, e)
    | .ok (d, _) => (r.1.isDir d).bind fun _ => (r.1.release d).map (·, 0)

/-! ### Descriptors -/

def fd (n : ℕ) : Option TmpFd := s.fds.find? (·.num = n)

/-- `tmpfs_close` releases the entry, but not the position. -/
def close (n : ℕ) : Option (TmpTree × ℤ) :=
  (s.fd n).bind fun f => (s.release f.dirent).map fun s =>
    ({ s with fds := s.fds.filter (·.num ≠ n) }, 0)

def setPos (n : ℕ) (pos : Option ℕ) : TmpTree :=
  { s with fds := s.fds.map fun (f : TmpFd) => if f.num = n then { f with pos } else f }

/-- `tmpfs_fd_seekdir` -/
def seekTo (f : TmpFd) (pos : Option ℕ) : Option TmpTree :=
  (s.retainPos pos).bind fun s => (s.releasePos f.pos).map fun (s : TmpTree) => s.setPos f.num pos

/-- `tmpfs_readdir`: 1 if an entry was read. -/
def readdir (n : ℕ) : Option (TmpTree × ℤ) :=
  (s.fd n).bind fun f => (s.dirent f.dirent).bind fun r => (s.isDir f.dirent).bind fun dir =>
    if ¬ dir then some (s, tmpEnotdir)
    else
      match f.pos with
      | none => some (s, 0)
      | some d =>
        (s.seekTo f (r.children.dropWhile (· ≠ d)).tail.head?).bind fun s =>
          -- The entry is read after its reference has been given up.
          (s.isDir d).map fun _ => (s, 1)

/-- `tmpfs_telldir` -/
def telldir (n : ℕ) : Option (TmpTree × ℤ) :=
  (s.fd n).bind fun f =>
    match f.pos with
    | none => some (s, -1)
    | some d => (s.dirent d).map fun r => (s, r.index)

def indexFrom (ptr : ℕ) : List ℕ → Option (Option ℕ)
  | [] => some none
  | c :: cs => (s.dirent c).bind fun r => if ptr ≤ r.index then some (some c) else indexFrom ptr cs

/-- `tmpfs_seekdir`, which asserts that it is a directory. -/
def seekdir (n ptr : ℕ) : Option (TmpTree × ℤ) :=
  (s.fd n).bind fun f => (s.dirent f.dirent).bind fun r => (s.isDir f.dirent).bind fun dir =>
    if ¬ dir then none
    else (s.indexFrom ptr r.children).bind fun pos => (s.seekTo f pos).map (·, 0)

/-! ### Unmounting -/

/-- `tmpfs_release_tree` -/
def releaseTree : ℕ → ℕ → TmpTree → Option TmpTree
  | 0, _, _ => none
  | fuel + 1, d, s =>
    (s.retain d).bind fun s => (s.dirent d).bind fun r =>
      (r.children.foldlM (fun s c => releaseTree fuel c s) s).bind fun s =>
        (s.release d).bind fun s => s.release d

/-- `tmpfs_umount`, which is not called while there are descriptors. -/
def umount : Option (TmpTree × ℤ) :=
  s.root.bind fun root =>
    if s.fds ≠ [] then some (s, tmpEbusy)
    else (releaseTree (s.nextDirent + 1) root s).map fun s => ({ s with root := none }, 0)

end TmpTree

/-- `tmpfs_mount` -/
def TmpTree.mounted : TmpTree where
  root := some 0
  dirent := update (fun _ => none) 0 (some ⟨[], 0, 0, none, [], 0, 1⟩)
  inode := update (fun _ => none) 0 (some ⟨true, 1⟩)
  fds := []
  nextDirent := 1
  nextInode := 1
  nextFd := 0

inductive TmpTreeOp
  | openPath (path : List TmpName) (creat excl allocInode allocDirent allocFd : Bool)
  | mkdir (path : List TmpName) (allocInode allocDirent : Bool)
  | stat (path : List TmpName)
  | close (n : ℕ)
  | readdir (n : ℕ)
  | telldir (n : ℕ)
  | seekdir (n ptr : ℕ)
  | umount

def tmpTreeStep (s : TmpTree) : TmpTreeOp → Option (TmpTree × ℤ)
  | .openPath path creat excl allocInode allocDirent allocFd =>
    s.openPath path creat excl allocInode allocDirent allocFd
  | .mkdir path allocInode allocDirent => s.mkdir path allocInode allocDirent
  | .stat path => s.stat path
  | .close n => s.close n
  | .readdir n => s.readdir n
  | .telldir n => s.telldir n
  | .seekdir n ptr => s.seekdir n ptr
  | .umount => s.umount

end ShellBox
