import ShellBox.Fs.MetaDb

/-!
# Bind mounts

A table of 32 slots sends parts of the guest's tree to directories and files of the host. A
guest path is normalized, the active slot whose path is the longest prefix of it is looked up,
and what follows the prefix is put behind the host path of the slot. A hook of the host program
is asked first.

`fakefs_bind_mount` and `fakefs_bind_unmount` change the table and move the metadata of the
mount point aside and back. What they do to the host's directories is a parameter: it decides
whether a call succeeds, and nothing below depends on more than that.
-/

namespace ShellBox

open Function

/-- `PATH_MAX` of a Linux host. -/
def pathMax : ℕ := 4096

def fakefsMaxBindMounts : ℕ := 32

/-- `while (len > 1 && out[len - 1] != '/') len--`, on the reversed text. -/
def backToSlash : CString → CString
  | c :: d :: out => if c = '/' then c :: d :: out else backToSlash (d :: out)
  | out => out

/-- A `..` takes the last segment off. -/
def dropSegment (out : CString) : CString :=
  let kept := backToSlash out.reverse
  let kept := if 1 < kept.length then kept.drop 1 else kept
  if kept = [] then ['/'] else kept.reverse

/-- `memcpy` of a segment, if there is room for it. -/
def appendSegment (outSize : ℕ) (out seg : CString) : Option CString :=
  if outSize ≤ out.length + seg.length then none else some (out ++ seg)

/-- The body of the loop of `bind_mount_normalize`, for one segment. -/
def normalizeSegment (outSize : ℕ) (out seg : CString) : Option CString :=
  if seg = [] ∨ seg = ['.'] then some out
  else if seg = ['.', '.'] then some (dropSegment out)
  else if 1 < out.length then
    if outSize ≤ out.length + 1 then none else appendSegment outSize (out ++ ['/']) seg
  else appendSegment outSize out seg

/-- `bind_mount_normalize`: the segments between the slashes, one after the other. -/
def bindMountNormalize (path : CString) (outSize : ℕ) : Option CString :=
  (path.splitOn '/').foldlM (normalizeSegment outSize) ['/']

/-- `struct fakefs_bind_mount`. -/
structure BindMount where
  path : CString
  hostPath : CString
  pathLen : ℕ
  hostPathLen : ℕ
  active : Bool
  readOnly : Bool
  deriving DecidableEq

/-- `g_bind_mounts`. -/
abbrev BindTable := Fin fakefsMaxBindMounts → BindMount

/-- A slot after `memset`. -/
def BindMount.unused : BindMount := ⟨[], [], 0, 0, false, false⟩

/-- The two comparisons of `bind_mount_find`. -/
def BindMount.covers (m : BindMount) (cmpPath : CString) : Bool :=
  m.path.take m.pathLen = cmpPath.take m.pathLen ∧ endsName (cmpPath.drop m.pathLen)

/-- The body of the loop of `bind_mount_find`, on `best` and `best_len`. -/
def bindMountBetter (t : BindTable) (cmpPath : CString) (readonlyOnly : Bool)
    (best : Option (Fin fakefsMaxBindMounts) × ℤ) (i : Fin fakefsMaxBindMounts) :
    Option (Fin fakefsMaxBindMounts) × ℤ :=
  if (t i).active = false then best
  else if readonlyOnly ∧ (t i).readOnly = false then best
  else if (t i).covers cmpPath = false then best
  else if best.2 < (t i).pathLen then (some i, (t i).pathLen)
  else best

def bindMountFind (t : BindTable) (cmpPath : CString) (readonlyOnly : Bool) :
    Option (Fin fakefsMaxBindMounts) :=
  ((List.finRange fakefsMaxBindMounts).foldl (bindMountBetter t cmpPath readonlyOnly) (none, -1)).1

/-- `g_path_translate_hook`, at the context of the calling task. -/
abbrev TranslateHook := Option (CString → Option CString)

/-- `bind_mount_translate_path_ex`: the host path, and whether it comes from the hook. -/
def bindMountTranslatePathEx (hook : TranslateHook) (t : BindTable) (path : CString)
    (outSize : ℕ) : Option (CString × Bool) := do
  let cmpPath ← bindMountNormalize path maxPath
  match hook.bind fun h => h cmpPath with
  | some out => some (out, true)
  | none => do
    let i ← bindMountFind t cmpPath false
    let out := (t i).hostPath ++ cmpPath.drop (t i).pathLen
    if outSize ≤ out.length then none else some (out, false)

def isUnderBindMount (t : BindTable) (path : CString) : Bool :=
  match bindMountNormalize path maxPath with
  | some normalized => (bindMountFind t normalized false).isSome
  | none => false

def isUnderReadonlyBindMount (t : BindTable) (path : CString) : Bool :=
  match bindMountNormalize path maxPath with
  | some normalized => (bindMountFind t normalized true).isSome
  | none => false

def fixPath : CString → CString
  | [] => ['.']
  | c :: path => if c = '/' then path else c :: path

/-- What the host answers to a call of `fakefs_bind_mount`. -/
structure BindHost where
  /-- `stat`: whether there is a directory or a regular file, and which. -/
  isFile : CString → Option Bool
  realpath : CString → Option CString
  /-- `bind_mount_stash` and `create_relative_symlink` at a link name. -/
  link : CString → CString → Bool
  /-- The empty string names no file. -/
  link_nil : ∀ target, link [] target = false

inductive BindErr
  | einval | enametoolong | enoent | enomem | host
  deriving DecidableEq, Repr

structure Binds where
  mounts : BindTable
  db : MetaDb

def bindSavedSuffix : CString :=
  ['.', 'i', 's', 'h', '-', 'b', 'i', 'n', 'd', '-', 's', 'a', 'v', 'e', 'd']

/-- The name rows are stashed under, cut off at the end of the buffer. -/
def bindSaved (linuxPath : CString) : CString := (linuxPath ++ bindSavedSuffix).take (maxPath - 1)

def bindMetaStash (db : MetaDb) (linuxPath : CString) : MetaDb :=
  if db.pathGetInode (bindSaved linuxPath) ≠ 0 then db.pathDeleteTree linuxPath
  else db.pathRename linuxPath (bindSaved linuxPath)

def bindMetaRestore (db : MetaDb) (linuxPath : CString) : MetaDb :=
  (db.pathDeleteTree linuxPath).pathRename (bindSaved linuxPath) linuxPath

def bindTopMode (isFile readOnly : Bool) : ℕ :=
  match isFile, readOnly with
  | true, true   => 0o100444
  | true, false  => 0o100644
  | false, true  => 0o040555
  | false, false => 0o040755

def bindMetaTop (db : MetaDb) (linuxPath : CString) (topMode : ℕ) : MetaDb :=
  let ino := db.pathGetInode linuxPath
  if ino = 0 then db.pathCreate linuxPath { mode := topMode, uid := 0, gid := 0, rdev := 0 }
  else
    match db.inodeReadStat ino with
    | some prev => db.inodeWriteStat ino { prev with mode := topMode }
    | none => db

def bindSlotOf (t : BindTable) (linuxPath : CString) : Option (Fin fakefsMaxBindMounts) :=
  (List.finRange fakefsMaxBindMounts).find? fun i => (t i).active ∧ (t i).path = linuxPath

def bindFreeSlot (t : BindTable) : Option (Fin fakefsMaxBindMounts) :=
  (List.finRange fakefsMaxBindMounts).find? fun i => ¬ (t i).active

/-- The slot `fakefs_bind_mount` writes. -/
def BindMount.make (linuxPath hostPath : CString) (readOnly : Bool) : BindMount :=
  { path := linuxPath.take (pathMax - 1), hostPath := hostPath.take (pathMax - 1),
    pathLen := linuxPath.length, hostPathLen := hostPath.length,
    active := true, readOnly := readOnly }

/-- The part of `fakefs_bind_mount` behind the choice of a slot. -/
def bindAt (h : BindHost) (b : Binds) (slot : Fin fakefsMaxBindMounts) (hostChanged : Bool)
    (linuxPath hostPath : CString) (readOnly isFile : Bool) : Option BindErr × Binds :=
  let m := BindMount.make linuxPath hostPath readOnly
  if hostChanged ∧ h.link (fixPath linuxPath) hostPath = false then
    (some .host, { b with mounts := update b.mounts slot { m with active := false } })
  else
    let db := if hostChanged then bindMetaStash b.db linuxPath else b.db
    (none, { mounts := update b.mounts slot m
             db := bindMetaTop db linuxPath (bindTopMode isFile readOnly) })

/-- `fakefs_bind_mount`, while a filesystem is mounted. -/
def fakefsBindMount (h : BindHost) (b : Binds) (linuxPath hostPath : CString) (readOnly : Bool) :
    Option BindErr × Binds :=
  if linuxPath.head? ≠ some '/' then (some .einval, b)
  else
    match bindMountNormalize linuxPath maxPath with
    | none => (some .enametoolong, b)
    | some linuxPath =>
      match h.isFile hostPath with
      | none => (some .enoent, b)
      | some isFile =>
        let hostPath := (h.realpath hostPath).getD hostPath
        match bindSlotOf b.mounts linuxPath with
        | some slot =>
          let hostChanged := (b.mounts slot).hostPath ≠ hostPath
          bindAt h b slot hostChanged linuxPath hostPath readOnly isFile
        | none =>
          match bindFreeSlot b.mounts with
          | some slot => bindAt h b slot true linuxPath hostPath readOnly isFile
          | none => (some .enomem, b)

/-- `fakefs_bind_unmount`, while a filesystem is mounted. -/
def fakefsBindUnmount (b : Binds) (linuxPath : CString) : Option BindErr × Binds :=
  match bindMountNormalize linuxPath maxPath with
  | none => (some .enametoolong, b)
  | some linuxPath =>
    match bindSlotOf b.mounts linuxPath with
    | none => (some .enoent, b)
    | some slot =>
      (none, { mounts := update b.mounts slot { b.mounts slot with active := false }
               db := bindMetaRestore b.db linuxPath })

inductive BindCall
  | mount (h : BindHost) (linuxPath hostPath : CString) (readOnly : Bool)
  | unmount (linuxPath : CString)

def bindCall (b : Binds) : BindCall → Option BindErr × Binds
  | .mount h linuxPath hostPath readOnly => fakefsBindMount h b linuxPath hostPath readOnly
  | .unmount linuxPath => fakefsBindUnmount b linuxPath

def bindStep (b : Binds) (c : BindCall) : Binds := (bindCall b c).2

def BindCall.Succeeds (b : Binds) (c : BindCall) : Prop := (bindCall b c).1 = none

end ShellBox
