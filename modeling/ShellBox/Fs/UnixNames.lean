import ShellBox.Logic.Buckets
import ShellBox.Logic.Loop
import ShellBox.Logic.RefCount

/-!
# The names of unix sockets

A unix socket is bound to a file or to an abstract name. It keeps the name, and a reference of the
inode or of the entry of the abstract table, which `bind` takes before it asks the host, and which
goes with the socket. A lookup by `connect` keeps nothing.

Inodes and abstract names are in tables of 1024 chains each. Other users of inodes hold references
of their own, and other calls change the files.
-/

namespace ShellBox

open Function

abbrev SockId := ℕ
/-- What `malloc` returns for an inode or an abstract name. -/
abbrev NamePtr := ℕ

def unixEnoent : ℤ := -2
def unixEbadf : ℤ := -9
def unixEnomem : ℤ := -12
def unixEexist : ℤ := -17
def unixEnotsock : ℤ := -88
def unixEaddrinuse : ℤ := -98

def nameHashSize : ℕ := 1024

def memHash (p : List UInt8) : UInt32 :=
  p.foldl (fun hash b => 33 * hash ^^^ b.toUInt32) 5381

/-- `struct unix_abstract`, without the reference count. -/
structure UnixAbstract where
  hash : UInt32
  socketId : UInt32
  name : List UInt8

/-- `struct inode_data`, without the reference count. -/
structure SocketInode where
  mount : ℕ
  number : ℕ
  socketId : UInt32

structure SocketStat where
  number : ℕ
  isSock : Bool

/-- Who holds a reference: a socket in `unix_name_inode` or in `unix_name_abstract`, the call that
runs in a variable, or another user of inodes. -/
inductive NameHolder
  | inode (s : SockId)
  | abstract (s : SockId)
  | call
  | other (h : ℕ)
deriving DecidableEq

structure UnixWorld where
  owner : NameHolder → Option NamePtr
  refcount : NamePtr → Option ℕ
  freed : List NamePtr
  /-- Where a reference was released that was not there. -/
  strays : List NamePtr
  abstract : NamePtr → Option UnixAbstract
  inode : NamePtr → Option SocketInode
  abstractHash : ℕ → List NamePtr
  inodesHash : ℕ → List NamePtr
  nextId : UInt32
  /-- The files by mount and path. -/
  files : ℕ × List UInt8 → Option SocketStat
  isOpen : SockId → Bool
  /-- `unix_name`, as far as `unix_name_len` goes. -/
  unixName : SockId → List UInt8
  /-- The host has accepted a `bind` of the socket; it does not accept another one. -/
  hostBound : SockId → Bool

/-- What a path leads to, what the file system answers, and whether there is memory for an inode. -/
structure PathReply where
  path : Except ℤ (ℕ × List UInt8)
  stat : Option ℤ
  mknod : Except ℤ ℕ
  statAgain : Option ℤ
  ptr : Option NamePtr

/-- An address that has been read: one that is refused, one of the internet, or the bytes behind the
family of a local one. -/
inductive SockAddr
  | refused (err : ℤ)
  | inet
  | unix (path : List UInt8)

namespace UnixWorld

variable (w : UnixWorld)

/-- `unix_socket_next_id` -/
def nextSocketId : UnixWorld × UInt32 := ({ w with nextId := w.nextId + 1 }, w.nextId + 1)

/-- `inode_release` and `unix_abstract_release` -/
def release (p : NamePtr) : UnixWorld :=
  match w.refcount p with
  | some 1 =>
    { w with
      refcount := update w.refcount p none
      freed := p :: w.freed
      abstract := update w.abstract p none
      inode := update w.inode p none
      abstractHash := fun i => (w.abstractHash i).erase p
      inodesHash := fun i => (w.inodesHash i).erase p }
  | some n => { w with refcount := update w.refcount p (some (n - 1)) }
  | none => { w with strays := p :: w.strays }

def releaseHeld (k : NameHolder) : UnixWorld :=
  match w.owner k with
  | some p =>
    let w := w.release p
    { w with owner := update w.owner k none }
  | none => w

def isInode (mount number : ℕ) (p : NamePtr) : Bool :=
  (w.inode p).any fun inode => inode.mount = mount ∧ inode.number = number

/-- The search in a chain of `inode_get_data`. -/
def inodeGetData (mount number : ℕ) : Option NamePtr :=
  (w.inodesHash (number % nameHashSize)).find? (w.isInode mount number)

/-- `inode_get`, for a holder. -/
def inodeGet (k : NameHolder) (mount number : ℕ) (ptr : Option NamePtr) :
    UnixWorld × Option NamePtr :=
  match w.inodeGetData mount number, ptr with
  | some p, _ =>
    ({ w with
      refcount := update w.refcount p ((w.refcount p).map (· + 1))
      owner := update w.owner k (some p) }, some p)
  | none, none => (w, none)
  | none, some p =>
    ({ w with
      refcount := update w.refcount p (some 1)
      owner := update w.owner k (some p)
      inode := update w.inode p (some ⟨mount, number, 0⟩)
      inodesHash := update w.inodesHash (number % nameHashSize)
        (p :: w.inodesHash (number % nameHashSize)) }, some p)

/-- The `socket_id` of an inode, which it gets when it is first asked for. -/
def socketIdOf (p : NamePtr) : UnixWorld × UInt32 :=
  match w.inode p with
  | none => (w, 0)
  | some inode =>
    if inode.socketId = 0 then
      let r := w.nextSocketId
      ({ r.1 with inode := update w.inode p (some { inode with socketId := r.2 }) }, r.2)
    else (w, inode.socketId)

/-- The last part of `unix_socket_get`, with the file there. -/
def socketInode (mount : ℕ) (stat : SocketStat) (bindFd : Option SockId) (ptr : Option NamePtr) :
    UnixWorld × Except ℤ UInt32 :=
  if stat.isSock then
    match w.inodeGet .call mount stat.number ptr with
    | (w, none) => (w, .error unixEnomem)
    | (w, some p) =>
      let r := w.socketIdOf p
      match bindFd with
      | some s =>
        ({ r.1 with owner := update (update r.1.owner (.inode s) (some p)) .call none },
          .ok r.2)
      | none => (r.1.releaseHeld .call, .ok r.2)
  else (w, .error unixEnotsock)

/-- `stat` of a file, which can fail for another reason than that there is none. -/
def stat (file : ℕ × List UInt8) (err : Option ℤ) : Except ℤ SocketStat :=
  match err, w.files file with
  | some err, _ => .error err
  | none, none => .error unixEnoent
  | none, some stat => .ok stat

/-- `mknod` of a socket -/
def mknod (file : ℕ × List UInt8) (reply : Except ℤ ℕ) : Except ℤ UnixWorld :=
  match reply, w.files file with
  | .error err, _ => .error err
  | .ok _, some _ => .error unixEexist
  | .ok number, none => .ok { w with files := update w.files file (some ⟨number, true⟩) }

def unixSocketGet (bindFd : Option SockId) (r : PathReply) : UnixWorld × Except ℤ UInt32 :=
  match r.path with
  | .error err => (w, .error err)
  | .ok file =>
    match bindFd, w.stat file r.stat with
    | none, .error err => (w, .error err)
    | none, .ok stat => w.socketInode file.1 stat none r.ptr
    | some _, .ok _ => (w, .error unixEaddrinuse)
    | some s, .error _ =>
      match w.mknod file r.mknod with
      | .error err => (w, .error err)
      | .ok w =>
        match w.stat file r.statAgain with
        | .error err => (w, .error err)
        | .ok stat => w.socketInode file.1 stat (some s) r.ptr

def isName (name : List UInt8) (p : NamePtr) : Bool :=
  (w.abstract p).any fun sock =>
    sock.hash = memHash name ∧ sock.name.length = name.length ∧ sock.name = name

/-- The search in a chain of `unix_abstract_get`. -/
def abstractFind (name : List UInt8) : Option NamePtr :=
  (w.abstractHash ((memHash name).toNat % nameHashSize)).find? (w.isName name)

def unixAbstractGet (name : List UInt8) (bindFd : Option SockId) (ptr : Option NamePtr) :
    UnixWorld × Except ℤ UInt32 :=
  match bindFd, w.abstractFind name, ptr with
  | some _, some _, _ => (w, .error unixEexist)
  | none, none, _ => (w, .error unixEnoent)
  | none, some p, _ => (w, .ok ((w.abstract p).elim 0 UnixAbstract.socketId))
  | some _, none, none => (w, .error unixEnomem)
  | some s, none, some p =>
    let r := w.nextSocketId
    let i := (memHash name).toNat % nameHashSize
    ({ r.1 with
      refcount := update w.refcount p (some 1)
      owner := update w.owner (.abstract s) (some p)
      abstract := update w.abstract p (some ⟨memHash name, r.2, name⟩)
      abstractHash := update w.abstractHash i (p :: w.abstractHash i) }, .ok r.2)

/-- The lookup of the path of a local address by `sockaddr_read_bind`. -/
def unixNameGet (path : List UInt8) (bindFd : Option SockId) (r : PathReply) :
    UnixWorld × Except ℤ UInt32 :=
  if path = [] then (w, .error unixEnoent)
  else if path.head? = some 0 then w.unixAbstractGet path.tail bindFd r.ptr
  else w.unixSocketGet bindFd r

def sockaddrReadBind (addr : SockAddr) (bindFd : Option SockId) (r : PathReply) :
    UnixWorld × Except ℤ Unit :=
  match addr with
  | .refused err => (w, .error err)
  | .inet => (w, .ok ())
  | .unix path =>
    match w.unixNameGet path bindFd r with
    | (w, .error err) => (w, .error err)
    | (w, .ok _) =>
      match bindFd with
      | some s => ({ w with unixName := update w.unixName s path }, .ok ())
      | none => (w, .ok ())

/-- `sys_bind` and its result; `err` is the answer of the host. -/
def sysBind (s : SockId) (addr : SockAddr) (r : PathReply) (err : Option ℤ) :
    UnixWorld × Except ℤ Unit :=
  if w.isOpen s then
    match w.sockaddrReadBind addr (some s) r with
    | (w, .error err) => (w, .error err)
    | (w, .ok _) =>
      match err with
      | none => ({ w with hostBound := update w.hostBound s true }, .ok ())
      | some err => ((w.releaseHeld (.inode s)).releaseHeld (.abstract s), .error err)
  else (w, .error unixEbadf)

/-- `sock_close`, as far as names go. -/
def sockClose (s : SockId) : UnixWorld :=
  let w := (w.releaseHeld (.inode s)).releaseHeld (.abstract s)
  { w with
    isOpen := update w.isOpen s false
    unixName := update w.unixName s []
    hostBound := update w.hostBound s false }

end UnixWorld

inductive UnixCall
  | socket (s : SockId)
  | bind (s : SockId) (addr : SockAddr) (r : PathReply) (err : Option ℤ)
  /-- The lookup of an address by `connect` or `sendto`. -/
  | lookup (addr : SockAddr) (r : PathReply)
  | close (s : SockId)
  /-- Another call makes or removes a file. -/
  | file (file : ℕ × List UInt8) (stat : Option SocketStat)
  /-- Another user of an inode takes a reference, or releases it. -/
  | inodeGet (h : ℕ) (mount number : ℕ) (ptr : Option NamePtr)
  | inodePut (h : ℕ)

namespace UnixCall

/-- Memory is given out once, and the host accepts one `bind` of a socket. -/
def Given (w : UnixWorld) : UnixCall → Bool
  | .socket s => !w.isOpen s
  | .bind s _ r err => (r.ptr.all fun p => (w.refcount p).isNone && !(w.freed.contains p)) &&
      (err.isSome || !w.hostBound s)
  | .lookup _ r => r.ptr.all fun p => (w.refcount p).isNone && !(w.freed.contains p)
  | .close s => w.isOpen s
  | .file _ _ => true
  | .inodeGet h _ _ ptr => (w.owner (.other h)).isNone &&
      ptr.all fun p => (w.refcount p).isNone && !(w.freed.contains p)
  | .inodePut _ => true

end UnixCall

def UnixWorld.call (w : UnixWorld) : UnixCall → UnixWorld
  | .socket s => { w with isOpen := update w.isOpen s true }
  | .bind s addr r err => (w.sysBind s addr r err).1
  | .lookup addr r => (w.sockaddrReadBind addr none r).1
  | .close s => w.sockClose s
  | .file file stat => { w with files := update w.files file stat }
  | .inodeGet h mount number ptr => (w.inodeGet (.other h) mount number ptr).1
  | .inodePut h => w.releaseHeld (.other h)

def unixStep (w : UnixWorld) (call : UnixCall) : UnixWorld :=
  if call.Given w then w.call call else w

def UnixWorld.init (files : ℕ × List UInt8 → Option SocketStat) : UnixWorld where
  owner _ := none
  refcount _ := none
  freed := []
  strays := []
  abstract _ := none
  inode _ := none
  abstractHash _ := []
  inodesHash _ := []
  nextId := 0
  files := files
  isOpen _ := false
  unixName _ := []
  hostBound _ := false

end ShellBox
