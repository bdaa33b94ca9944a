import Mathlib
import ShellBox.Logic.LittleEndian
import ShellBox.Kernel.UserCopy
import ShellBox.Fs.MetaDb

/-!
# The fast system calls

`handle_interrupt` tries `read`, `write` and `fstat` with handlers of its own before it looks at
the system-call table. They stand in for the handlers of the table on descriptors whose
operations are `realfs_fdops`: files of real mounts, files behind the path hook, pipes and the
standard streams. A handler that does not take the call returns `-1`.

What the host will answer is part of the state, call after call, so that a call that reaches the
host twice uses up two answers.
-/

namespace ShellBox

open Function World

/-! ### What the host answers -/

/-- The errors that `err_map` knows by name, by the numbers they have for the guest. -/
def errCases : List ℕ :=
  List.range' 1 40 ++ [60, 61, 62, 63, 66, 67, 71, 72, 74, 75, 84] ++ List.range' 87 30 ++ [122]

/-- A value of `errno` after a host call. -/
inductive HostErrno where
  | named (n : { n // n ∈ errCases })
  | unknown (n : BitVec 31)
  deriving DecidableEq

namespace HostErrno

def eperm : HostErrno := .named ⟨1, by decide⟩
def eintr : HostErrno := .named ⟨4, by decide⟩
def efault : HostErrno := .named ⟨14, by decide⟩
def eisdir : HostErrno := .named ⟨21, by decide⟩
def epipe : HostErrno := .named ⟨32, by decide⟩

end HostErrno

def errMap : HostErrno → BitVec 32
  | .named n => -BitVec.ofNat 32 n
  | .unknown n => -(n.setWidth 32 ||| 0x1000#32)

/-- `_EPERM`, which is also what a fast handler returns when it does not take the call. -/
def notTaken : BitVec 32 := -1

def ebadf : BitVec 32 := -9
def efaultRet : BitVec 32 := -14
def eisdirRet : BitVec 32 := -21
def enoentRet : BitVec 32 := -2

/-- `struct stat` of the host. -/
structure HostStat where
  dev : BitVec 32 × BitVec 32
  ino : BitVec 64
  mode : BitVec 32
  nlink : BitVec 64
  uid : BitVec 32
  gid : BitVec 32
  rdev : BitVec 32 × BitVec 32
  size : BitVec 64
  blksize : BitVec 64
  blocks : BitVec 64
  atime : BitVec 64 × BitVec 64
  mtime : BitVec 64 × BitVec 64
  ctime : BitVec 64 × BitVec 64

/-- What the host will answer to the calls that are made of it, call after call. A `read` or a
`write` that succeeds also says where the descriptor then stands. -/
structure HostAnswers where
  reads : List (Except HostErrno (List UInt8 × ℕ))
  writes : List (Except HostErrno (ℕ × ℕ))
  stats : List (Except HostErrno HostStat)

/-- `do { res = … } while (res < 0 && errno == EINTR)`: the answer that ends the loop, and those
that are left. -/
def retryEintr {α : Type} :
    List (Except HostErrno α) → Option (Except HostErrno α × List (Except HostErrno α))
  | [] => none
  | .ok a :: rest => some (.ok a, rest)
  | .error e :: rest => if e = .eintr then retryEintr rest else some (.error e, rest)

/-! ### Records of `fstat` -/

/-- `struct statbuf` -/
structure Statbuf where
  dev : BitVec 64
  inode : BitVec 64
  mode : BitVec 32
  nlink : BitVec 32
  uid : BitVec 32
  gid : BitVec 32
  rdev : BitVec 64
  size : BitVec 64
  blksize : BitVec 32
  blocks : BitVec 64
  atime : BitVec 32 × BitVec 32
  mtime : BitVec 32 × BitVec 32
  ctime : BitVec 32 × BitVec 32
  deriving DecidableEq

/-- `dev_make`, and `dev_fake_from_real` of a device with these numbers. -/
def devMake (dev : BitVec 32 × BitVec 32) : BitVec 32 :=
  ((dev.2 &&& 0xfff00) <<< 12) ||| (dev.1 <<< 8) ||| (dev.2 &&& 0xff)

def cutTime (t : BitVec 64 × BitVec 64) : BitVec 32 × BitVec 32 :=
  (t.1.setWidth 32, t.2.setWidth 32)

def copyStat (st : HostStat) : Statbuf where
  dev := (devMake st.dev).setWidth 64
  inode := st.ino
  mode := st.mode
  nlink := st.nlink.setWidth 32
  uid := st.uid
  gid := st.gid
  rdev := (devMake st.rdev).setWidth 64
  size := st.size
  blksize := st.blksize.setWidth 32
  blocks := st.blocks
  atime := cutTime st.atime
  mtime := cutTime st.mtime
  ctime := cutTime st.ctime

/-- `struct stat_arm64`, without the padding. -/
structure StatArm64 where
  dev : BitVec 64
  ino : BitVec 64
  mode : BitVec 32
  nlink : BitVec 32
  uid : BitVec 32
  gid : BitVec 32
  rdev : BitVec 64
  size : BitVec 64
  blksize : BitVec 32
  blocks : BitVec 64
  atime : BitVec 64
  atimeNsec : BitVec 64
  mtime : BitVec 64
  mtimeNsec : BitVec 64
  ctime : BitVec 64
  ctimeNsec : BitVec 64

def statConvertArm64 (st : Statbuf) : StatArm64 where
  dev := st.dev
  ino := st.inode
  mode := st.mode
  nlink := st.nlink
  uid := st.uid
  gid := st.gid
  rdev := st.rdev
  size := st.size
  blksize := st.blksize
  blocks := st.blocks
  atime := st.atime.1.setWidth 64
  atimeNsec := st.atime.2.setWidth 64
  mtime := st.mtime.1.setWidth 64
  mtimeNsec := st.mtime.2.setWidth 64
  ctime := st.ctime.1.setWidth 64
  ctimeNsec := st.ctime.2.setWidth 64

def StatArm64.bytes (st : StatArm64) : List UInt8 :=
  bytesLE 8 st.dev.toNat ++ bytesLE 8 st.ino.toNat ++ bytesLE 4 st.mode.toNat ++
    bytesLE 4 st.nlink.toNat ++ bytesLE 4 st.uid.toNat ++ bytesLE 4 st.gid.toNat ++
    bytesLE 8 st.rdev.toNat ++ bytesLE 8 0 ++ bytesLE 8 st.size.toNat ++
    bytesLE 4 st.blksize.toNat ++ bytesLE 4 0 ++ bytesLE 8 st.blocks.toNat ++
    bytesLE 8 st.atime.toNat ++ bytesLE 8 st.atimeNsec.toNat ++ bytesLE 8 st.mtime.toNat ++
    bytesLE 8 st.mtimeNsec.toNat ++ bytesLE 8 st.ctime.toNat ++ bytesLE 8 st.ctimeNsec.toNat ++
    bytesLE 4 0 ++ bytesLE 4 0

lemma StatArm64.length_bytes (st : StatArm64) : st.bytes.length = 128 := by
  unfold StatArm64.bytes
  simp only [List.length_append, length_bytesLE]

/-! ### Descriptors and the state of a task -/

/-- Operations tables: `realfs_fdops`, the copy of it that fakefs keeps, and all others. -/
inductive FdopsName where
  | realfs | fakefs | other (n : ℕ)
  deriving DecidableEq

inductive FsName where
  | realfs | fakefs | adhoc | other (n : ℕ)
  deriving DecidableEq

/-- `struct fd`. Only files of real mounts, files behind the path hook of fakefs, pipes and
standard streams have `realfs_fdops`. -/
structure OpenFd where
  realFd : ℕ
  ops : FdopsName
  isDir : Bool
  changePath : Option String
  fs : FsName
  stat : Statbuf
  fakeInode : ℕ
  offset : ℕ
  known : ops = .realfs → ∀ n, fs ≠ .other n

/-- What the calls work on: the registers and the address space of the task, its descriptors by
number, the positions of the host descriptors, what the host will answer, whether somebody
listens to changes and the changes reported, and how often `SIGPIPE` was sent. -/
structure SysState where
  regs : Fin 31 → BitVec 64
  mem : { w : World // w.Valid }
  files : ℤ → Option OpenFd
  position : ℕ → ℕ
  host : HostAnswers
  consumer : Bool
  changes : List String
  sigpipes : ℕ
  v8Aborting : Bool
  db : MetaDb

/-- Numerals stand for registers. -/
instance neZero_regs : NeZero 31 := ⟨by decide⟩

namespace SysState

def setX0 (st : SysState) (v : BitVec 64) : SysState := { st with regs := update st.regs 0 v }

/-- `fakefs_record_change` -/
def recordChange (st : SysState) (path : Option String) : SysState :=
  match path with
  | some p => if st.consumer then { st with changes := st.changes ++ [p] } else st
  | none => st

def errnoMap (st : SysState) (e : HostErrno) : SysState × BitVec 32 :=
  (if e = .epipe then { st with sigpipes := st.sigpipes + 1 } else st, errMap e)

def userRead (h : Host) (s addr count : ℕ) (st : SysState) : SysState × Option (List UInt8) :=
  ({ st with mem := ⟨(ShellBox.userRead h s addr count st.mem.1).1, valid_userRead _ _ st.mem.2⟩ },
    (ShellBox.userRead h s addr count st.mem.1).2)

def userWrite (h : Host) (s addr : ℕ) (buf : List UInt8) (st : SysState) : SysState × Bool :=
  ({ st with mem := ⟨(ShellBox.userWrite h s addr buf st.mem.1).1,
      valid_userWrite _ _ st.mem.2⟩ },
    (ShellBox.userWrite h s addr buf st.mem.1).2)

/-- The host's `read` in its loop. The host gives no more than it is asked for. -/
def hostRead (fd : OpenFd) (size : ℕ) (st : SysState) :
    Option (SysState × Except HostErrno (List UInt8)) :=
  (retryEintr st.host.reads).map fun r =>
    let st := { st with host.reads := r.2 }
    match r.1 with
    | .error e => (st, .error e)
    | .ok (buf, pos) =>
      ({ st with position := update st.position fd.realFd pos }, .ok (buf.take size))

/-- The host's `write` in its loop. It takes no more than it is given. -/
def hostWrite (fd : OpenFd) (size : ℕ) (st : SysState) :
    Option (SysState × Except HostErrno ℕ) :=
  (retryEintr st.host.writes).map fun r =>
    let st := { st with host.writes := r.2 }
    match r.1 with
    | .error e => (st, .error e)
    | .ok (n, pos) => ({ st with position := update st.position fd.realFd pos }, .ok (min n size))

/-- The host's `fstat`. -/
def hostFstat (st : SysState) : Option (SysState × Except HostErrno HostStat) :=
  match st.host.stats with
  | [] => none
  | r :: rest => some ({ st with host.stats := rest }, r)

end SysState

/-! ### The handlers of the table -/

/-- The operation that `sys_read_buf` finds in an operations table. -/
inductive ReadOp where
  | read (f : OpenFd → ℕ → SysState → Option (SysState × Except (BitVec 32) (List UInt8)))
  | pread (f : OpenFd → ℕ → ℕ → SysState → Option (SysState × Except (BitVec 32) (List UInt8)))
      (lseek : OpenFd → ℕ → SysState → SysState)
  | missing

/-- The operation that `sys_write_buf` finds in an operations table. -/
inductive WriteOp where
  | write (f : OpenFd → List UInt8 → ℕ → SysState → Option (SysState × Except (BitVec 32) ℕ))
  | pwrite (f : OpenFd → List UInt8 → ℕ → ℕ → SysState →
        Option (SysState × Except (BitVec 32) ℕ))
      (lseek : OpenFd → ℕ → SysState → SysState)
  | missing

/-- What the handlers find around them: the operations of other file systems and devices,
whether the path of a descriptor goes through the path hook, the environment variable
`ISH_V8_NO_MUTE`, the address space and what its translations get from the host. -/
structure CallEnv where
  readOp : ℕ → ReadOp
  writeOp : ℕ → WriteOp
  fstat : ℕ → OpenFd → SysState → Option (SysState × Except (BitVec 32) Statbuf)
  viaHook : OpenFd → Bool
  muteDisabled : Bool
  memHost : Host
  space : ℕ

section Table

variable (E : CallEnv)

def realfsRead (fd : OpenFd) (size : ℕ) (st : SysState) :
    Option (SysState × Except (BitVec 32) (List UInt8)) :=
  (st.hostRead fd size).map fun (st, r) =>
    match r with
    | .error e => ((st.errnoMap e).1, .error (st.errnoMap e).2)
    | .ok buf => (st, .ok buf)

def realfsWrite (fd : OpenFd) (_buf : List UInt8) (size : ℕ) (st : SysState) :
    Option (SysState × Except (BitVec 32) ℕ) :=
  (st.hostWrite fd size).map fun (st, r) =>
    match r with
    | .error e => ((st.errnoMap e).1, .error (st.errnoMap e).2)
    | .ok n => (st.recordChange fd.changePath, .ok n)

def SysState.realfsFstat (st : SysState) : Option (SysState × Except (BitVec 32) Statbuf) :=
  st.hostFstat.map fun (st, r) =>
    match r with
    | .error e => ((st.errnoMap e).1, .error (st.errnoMap e).2)
    | .ok stat => (st, .ok (copyStat stat))

/-- The record that fakefs makes of the host's: the row of `meta.db` has the last word, and
without a row a file behind the hook gets plain permissions. -/
def fakeRecord (fd : OpenFd) (db : MetaDb) (stat : Statbuf) : Option Statbuf :=
  match db.inodeReadStat fd.fakeInode with
  | some ish => some { stat with
      inode := BitVec.ofNat 64 fd.fakeInode
      mode := BitVec.ofNat 32 ish.mode
      uid := BitVec.ofNat 32 ish.uid
      gid := BitVec.ofNat 32 ish.gid
      rdev := BitVec.ofNat 64 ish.rdev }
  | none =>
    if E.viaHook fd then
      let type := stat.mode &&& 0xf000
      some { stat with
        mode := type ||| (if type = 0x4000 then 0o755 else 0o644)
        uid := 0
        gid := 0
        rdev := 0 }
    else none

def SysState.fakefsFstat (fd : OpenFd) (st : SysState) :
    Option (SysState × Except (BitVec 32) Statbuf) :=
  (SysState.realfsFstat st).map fun (st, r) =>
    match r with
    | .error e => (st, .error e)
    | .ok stat =>
      match fakeRecord E fd st.db stat with
      | some own => (st, .ok own)
      | none => (st, .error enoentRet)

/-- `fd->mount->fs->fstat`; the one of descriptors without a file system is `adhoc_fstat`. -/
def fsFstat (fd : OpenFd) (st : SysState) : Option (SysState × Except (BitVec 32) Statbuf) :=
  match fd.fs with
  | .realfs => SysState.realfsFstat st
  | .fakefs => SysState.fakefsFstat E fd st
  | .adhoc => some (st, .ok fd.stat)
  | .other n => E.fstat n fd st

/-- `fd->ops` for reading. -/
def readOpOf (fd : OpenFd) : ReadOp :=
  match fd.ops with
  | .realfs | .fakefs => .read realfsRead
  | .other n => E.readOp n

/-- `fd->ops` for writing. -/
def writeOpOf (fd : OpenFd) : WriteOp :=
  match fd.ops with
  | .realfs | .fakefs => .write realfsWrite
  | .other n => E.writeOp n

def sysReadBuf (fdNo : ℤ) (size : ℕ) (st : SysState) :
    Option (SysState × Except (BitVec 32) (List UInt8)) :=
  match st.files fdNo with
  | none => some (st, .error ebadf)
  | some fd =>
    if fd.isDir then some (st, .error eisdirRet)
    else
      match readOpOf E fd with
      | .read f => f fd size st
      | .pread f lseek => (f fd size fd.offset st).map fun (st, r) =>
          match r with
          | .error e => (st, .error e)
          | .ok buf => (if 0 < buf.length then lseek fd buf.length st else st, .ok buf)
      | .missing => some (st, .error ebadf)

/-- `sys_read`. The result of `sys_read_buf` is cut to 32 bits before its sign is looked at. -/
def sysRead (fdNo : ℤ) (addr size : ℕ) (st : SysState) : Option (SysState × BitVec 32) :=
  (sysReadBuf E fdNo size st).map fun (st, r) =>
    match r with
    | .error e => (st, e)
    | .ok buf =>
      let res := BitVec.ofNat 32 buf.length
      if res.msb then (st, res)
      else
        match st.userWrite E.memHost E.space addr buf with
        | (st, true) => (st, res)
        | (st, false) => (st, efaultRet)

/-- The texts that `v8_abort_prefix` looks for. -/
def v8Signatures : List String :=
  ["# Fatal error in ", "# Check failed:", "#FailureMessage Object",
    "----- Native stack trace -----", "----- JavaScript stack trace -----",
    "Attempt to print stack while printing stack", "<--- Last few GCs --->",
    "FATAL ERROR: v8::", "FATAL ERROR: CALL_AND_RETRY_", "FATAL ERROR: MarkCompactCollector",
    "FATAL ERROR: Reached heap limit", "FATAL ERROR: Scavenger", "FATAL ERROR: NewSpace",
    "abort: Invalid bytecode", "abort: Unreachable", "abort: kOperandIsNotAFunction",
    "abort: kOperandIsNotACallable", "abort: kExpectedFeedbackVector",
    "abort: kInvalidJumpTableIndex", "abort: kStackFrameTypesMustMatch",
    "abort: kUnexpectedFunctionKind"]

/-- `v8_abort_prefix`: one of the texts is in the first 256 bytes. -/
def v8AbortPrefix (buf : List UInt8) : Bool :=
  !buf.isEmpty && v8Signatures.any fun text =>
    decide (text.toList.map (fun c => UInt8.ofNat c.toNat) <:+: buf.take 256)

/-- A write of these bytes is one of those that the filter on stderr swallows. -/
def v8Drops (fdNo : ℤ) (buf : List UInt8) (st : SysState) : Bool :=
  !E.muteDisabled && fdNo = 2 && (st.v8Aborting || v8AbortPrefix buf)

def sysWriteBuf (fdNo : ℤ) (buf : List UInt8) (size : ℕ) (st : SysState) :
    Option (SysState × Except (BitVec 32) ℕ) :=
  if v8Drops E fdNo buf st then some ({ st with v8Aborting := true }, .ok size)
  else
    match st.files fdNo with
    | none => some (st, .error ebadf)
    | some fd =>
      match writeOpOf E fd with
      | .write f => f fd buf size st
      | .pwrite f lseek => (f fd buf size fd.offset st).map fun (st, r) =>
          match r with
          | .error e => (st, .error e)
          | .ok n => (if 0 < n then lseek fd n st else st, .ok n)
      | .missing => some (st, .error ebadf)

/-- `sys_write`. When the end of the buffer overflows, nothing is copied and `buf` keeps what was
in it; there is no text of the filter in that. -/
def sysWrite (fdNo : ℤ) (addr size : ℕ) (st : SysState) : Option (SysState × BitVec 32) :=
  match st.userRead E.memHost E.space addr size with
  | (st, none) => some (st, efaultRet)
  | (st, some buf) => (sysWriteBuf E fdNo buf size st).map fun (st, r) =>
      match r with
      | .error e => (st, e)
      | .ok n => (st, BitVec.ofNat 32 n)

/-- `user_put` of a record, and the result after it. -/
def putStat (addr : ℕ) (record : StatArm64) (st : SysState) : SysState × BitVec 32 :=
  let r := st.userWrite E.memHost E.space addr record.bytes
  (r.1, bif r.2 then 0 else efaultRet)

def sysFstat64 (fdNo : ℤ) (addr : ℕ) (st : SysState) : Option (SysState × BitVec 32) :=
  match st.files fdNo with
  | none => some (st, ebadf)
  | some fd => (fsFstat E fd st).map fun (st, r) =>
      match r with
      | .error e => (st, e)
      | .ok stat => putStat E addr (statConvertArm64 stat) st

/-! ### The fast handlers -/

/-- The conversions of a record as `fast_fstat64` does them. -/
def fastRecord (realStat : HostStat) : StatArm64 :=
  let fakeStat : Statbuf :=
    { dev := (devMake realStat.dev).setWidth 64
      inode := realStat.ino
      mode := realStat.mode
      nlink := realStat.nlink.setWidth 32
      uid := realStat.uid
      gid := realStat.gid
      rdev := (devMake realStat.rdev).setWidth 64
      size := realStat.size
      blksize := realStat.blksize.setWidth 32
      blocks := realStat.blocks
      atime := cutTime realStat.atime
      mtime := cutTime realStat.mtime
      ctime := cutTime realStat.ctime }
  { dev := fakeStat.dev
    ino := fakeStat.inode
    mode := fakeStat.mode
    nlink := fakeStat.nlink
    uid := fakeStat.uid
    gid := fakeStat.gid
    rdev := fakeStat.rdev
    size := fakeStat.size
    blksize := fakeStat.blksize
    blocks := fakeStat.blocks
    atime := fakeStat.atime.1.setWidth 64
    atimeNsec := fakeStat.atime.2.setWidth 64
    mtime := fakeStat.mtime.1.setWidth 64
    mtimeNsec := fakeStat.mtime.2.setWidth 64
    ctime := fakeStat.ctime.1.setWidth 64
    ctimeNsec := fakeStat.ctime.2.setWidth 64 }

def fastFstat64 (fdNo : ℤ) (addr : ℕ) (st : SysState) : Option (SysState × BitVec 32) :=
  match st.files fdNo with
  | none => some (st, notTaken)
  | some fd =>
    if fd.ops ≠ .realfs then some (st, notTaken)
    else st.hostFstat.map fun (st, r) =>
      match r with
      | .error e => st.errnoMap e
      | .ok realStat => putStat E addr (fastRecord realStat) st

def fastRead (fdNo : ℤ) (addr size : ℕ) (st : SysState) : Option (SysState × BitVec 32) :=
  if 4096 < size then some (st, notTaken)
  else
    match st.files fdNo with
    | none => some (st, notTaken)
    | some fd =>
      if fd.ops ≠ .realfs then some (st, notTaken)
      else (st.hostRead fd size).map fun (st, r) =>
        match r with
        | .error e => st.errnoMap e
        | .ok buf =>
          if 0 < buf.length then
            match st.userWrite E.memHost E.space addr buf with
            | (st, true) => (st, BitVec.ofNat 32 buf.length)
            | (st, false) => (st, efaultRet)
          else (st, BitVec.ofNat 32 buf.length)

def fastWrite (fdNo : ℤ) (addr size : ℕ) (st : SysState) : Option (SysState × BitVec 32) :=
  if 4096 < size then some (st, notTaken)
  else
    match st.files fdNo with
    | none => some (st, notTaken)
    | some fd =>
      if fd.ops ≠ .realfs then some (st, notTaken)
      else
        match st.userRead E.memHost E.space addr size with
        | (st, none) => some (st, efaultRet)
        | (st, some _) => (st.hostWrite fd size).map fun (st, r) =>
            match r with
            | .error e => st.errnoMap e
            | .ok n => (st, BitVec.ofNat 32 n)

/-! ### The dispatch -/

inductive HotCall where
  | fstat64 | read | write
  deriving DecidableEq

def SysState.fdNo (st : SysState) : ℤ := ((st.regs 0).setWidth 32).toInt
def SysState.addr (st : SysState) : ℕ := (st.regs 1).toNat
def SysState.size (st : SysState) : ℕ := ((st.regs 2).setWidth 32).toNat

def fastHandler (c : HotCall) (st : SysState) : Option (SysState × BitVec 32) :=
  match c with
  | .fstat64 => fastFstat64 E st.fdNo st.addr st
  | .read => fastRead E st.fdNo st.addr st.size st
  | .write => fastWrite E st.fdNo st.addr st.size st

def tableHandler (c : HotCall) (st : SysState) : Option (SysState × BitVec 32) :=
  match c with
  | .fstat64 => sysFstat64 E st.fdNo st.addr st
  | .read => sysRead E st.fdNo st.addr st.size st
  | .write => sysWrite E st.fdNo st.addr st.size st

/-- The value of `x0` after a fast handler. -/
def fastReturn (res : BitVec 32) : BitVec 64 :=
  if -4095 ≤ res.toInt ∧ res.toInt < 0 then res.signExtend 64 else res.setWidth 64

/-- The value of `x0` after a handler of the table. -/
def slowReturn (result : BitVec 64) : BitVec 64 :=
  let low32 := result.setWidth 32
  if result >>> 32 = 0 ∧ -4095 ≤ low32.toInt ∧ low32.toInt < 0 then low32.signExtend 64
  else result

def slowPath (c : HotCall) (st : SysState) : Option SysState :=
  (tableHandler E c st).map fun (st, res) => st.setX0 (slowReturn (res.setWidth 64))

/-- `handle_interrupt` for one of the calls. -/
def handleInterrupt (c : HotCall) (st : SysState) : Option SysState :=
  match fastHandler E c st with
  | none => none
  | some (st, res) =>
    if res ≠ notTaken then some (st.setX0 (fastReturn res)) else slowPath E c st

end Table

end ShellBox
