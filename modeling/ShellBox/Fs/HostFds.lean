import ShellBox.Fs.FdClosing

/-!
# The host descriptors behind sockets and pipes

A description of a socket or of an end of a pipe has a descriptor of the host, which its `close`
operation closes. The calls that make descriptions get the descriptor from the host before, and
clean up on their own when they fail afterwards. `recvmsg` gets one with every message that carries
descriptors, and has to close it.

A call takes place without interruption. The messages in flight hold references of the descriptions
in them.
-/

namespace ShellBox

open Function

def afLocal : ℕ := 1
def socketTypeMask : ℕ := 0xf

/-- `fd->socket` of a socket, as far as a descriptor that `accept` makes has it from there. -/
structure SocketInfo where
  domain : ℕ
  type : ℕ
deriving DecidableEq

structure HostWorld where
  fds : FdWorld
  /-- `fd->real_fd` of the sockets and the pipes. -/
  realFd : FdId → Option ℕ
  socket : FdId → Option SocketInfo
  /-- The descriptors of the host that have been obtained and not been closed. -/
  isOpen : ℕ → Bool
  /-- Where `close` was called on a descriptor that was not open. -/
  strays : List ℕ

/-- What the creation of a description meets: whether there is memory for it, and where; the limit
on open files; and whether there is memory for a larger table. -/
structure Creation where
  fd : FdId
  null : Bool
  rlimit : ℕ
  oom : Bool

namespace HostWorld

variable (w : HostWorld)

def hostOpen (n : ℕ) : HostWorld := { w with isOpen := update w.isOpen n true }

/-- `close` of the host -/
def hostClose (n : ℕ) : HostWorld :=
  if w.isOpen n then { w with isOpen := update w.isOpen n false }
  else { w with strays := n :: w.strays }

/-- The `close` operation of a description: `sock_close` ends with `realfs_close`, and the ends of
pipes have nothing else. What `sock_close` lets go of before is no descriptor of the host; the
messages that nobody has received go one by one. -/
def closeOp (fd : FdId) : HostWorld :=
  match w.realFd fd with
  | some n => w.hostClose n
  | none => w

/-- The descriptor tables change, and what has lost its last reference is closed. -/
def setFds (fds : FdWorld) : HostWorld :=
  (fds.closed.filter (· ∉ w.fds.closed)).foldr (fun fd w => closeOp w fd) { w with fds := fds }

def fdOp (op : FdOp) : HostWorld := w.setFds (fdStep w.fds op)

/-- `adhoc_fd_create`, and the assignment of `real_fd`. -/
def adhocFdCreate (h : ℕ) (fd : FdId) (n : ℕ) (info : Option SocketInfo) : HostWorld :=
  let w := w.fdOp (.create h fd)
  { w with realFd := update w.realFd fd (some n), socket := update w.socket fd info }

/-- `f_install` of what the caller has, and its result. -/
def fInstall (t : TaskId) (h : ℕ) (flags rlimit : ℕ) (oom : Bool) : HostWorld × ℤ :=
  match w.fds.table t with
  | some (_, T) => (w.fdOp (.install t h flags rlimit oom), (T.installSlot 0 rlimit oom).2)
  | none => (w, fdEbadf)

/-- `sock_fd_create` and `pipe_f_create`: they differ in what the description is told about. -/
def fdCreate (t : TaskId) (h n : ℕ) (info : Option SocketInfo) (flags : ℕ) (c : Creation) :
    HostWorld × ℤ :=
  if c.null then (w, fdEnomem)
  else (w.adhocFdCreate h c.fd n info).fInstall t h flags c.rlimit c.oom

def sockFdCreate (t : TaskId) (h sockFd domain type : ℕ) (c : Creation) : HostWorld × ℤ :=
  w.fdCreate t h sockFd (some ⟨domain, type &&& socketTypeMask⟩)
    (type - (type &&& socketTypeMask)) c

/-- `pipe_f_create` -/
def pipeFCreate (t : TaskId) (h pipeFd flags : ℕ) (c : Creation) : HostWorld × ℤ :=
  w.fdCreate t h pipeFd none flags c

/-- `sys_socket`. The host's answer is missing where the call fails before it, or there. -/
def sysSocket (t : TaskId) (h domain type : ℕ) (reply : Option ℕ) (c : Creation) : HostWorld :=
  match reply with
  | none => w
  | some sock =>
    let r := (w.hostOpen sock).sockFdCreate t h sock domain type c
    if r.2 < 0 then r.1.hostClose sock else r.1

def sysPipe2 (t : TaskId) (h flags : ℕ) (reply : Option (ℕ × ℕ)) (c₀ c₁ : Creation)
    (mapped : Bool) : HostWorld :=
  match reply with
  | none => w
  | some (p₀, p₁) =>
    let r₀ := ((w.hostOpen p₀).hostOpen p₁).pipeFCreate t h p₀ flags c₀
    if r₀.2 < 0 then (r₀.1.hostClose p₀).hostClose p₁
    else
      let r₁ := r₀.1.pipeFCreate t h p₁ flags c₁
      if r₁.2 < 0 then ((r₁.1.fdOp (.close t r₀.2)).hostClose p₀).hostClose p₁
      else if mapped then r₁.1
      else (((r₁.1.fdOp (.close t r₁.2)).fdOp (.close t r₀.2)).hostClose p₀).hostClose p₁

/-- `sys_socketpair`. Where there is no room in the table, `sock_close` waits for `peer_lock`, and
the caller has it: nothing is closed. A failure of `f_get` is not looked for. -/
def sysSocketpair (t : TaskId) (h domain type : ℕ) (reply : Option (ℕ × ℕ)) (c₀ c₁ : Creation)
    (mapped : Bool) : HostWorld :=
  match reply with
  | none => w
  | some (s₀, s₁) =>
    let w := (w.hostOpen s₀).hostOpen s₁
    let r₀ := w.sockFdCreate t h s₀ domain type c₀
    if r₀.2 < 0 then
      if c₀.null then (r₀.1.hostClose s₀).hostClose s₁ else { r₀.1 with isOpen := w.isOpen }
    else
      let r₁ := r₀.1.sockFdCreate t h s₁ domain type c₁
      if r₁.2 < 0 then
        if c₁.null then ((r₁.1.fdOp (.close t r₀.2)).hostClose s₀).hostClose s₁
        else { r₁.1 with isOpen := r₀.1.isOpen }
      else
        let w := (r₁.1.fdOp (.get t r₀.2 false)).fdOp (.get t r₁.2 false)
        if mapped then w
        else (((w.fdOp (.close t r₁.2)).fdOp (.close t r₀.2)).hostClose s₀).hostClose s₁

def sockGetfd (t : TaskId) (f : ℤ) (oom : Bool) : Option SocketInfo :=
  (w.fds.fGet t f oom).2.bind w.socket

/-- `sys_accept` and its result. The address of the peer is written before the description is made.
-/
def sysAccept (t : TaskId) (h : ℕ) (sockFd : ℤ) (oom : Bool) (reply : Option ℕ) (written : Bool)
    (c : Creation) : HostWorld × ℤ :=
  let sock := w.sockGetfd t sockFd oom
  let w := w.fdOp (.get t sockFd oom)
  match sock, reply with
  | some sock, some client =>
    let w := w.hostOpen client
    if written then
      let r := w.sockFdCreate t h client sock.domain sock.type c
      if r.2 < 0 then (r.1.hostClose client, r.2)
      else if sock.domain = afLocal then (r.1.fdOp (.get t r.2 false), r.2) else r
    else (w.hostClose client, -1)
  | _, _ => (w, -1)

def sysAccept4 (t : TaskId) (h : ℕ) (sockFd : ℤ) (flags : ℕ) (oom : Bool) (reply : Option ℕ)
    (written : Bool) (c : Creation) : HostWorld :=
  let r := w.sysAccept t h sockFd oom reply written c
  if r.2 < 0 then r.1
  else
    let w := r.1.fdOp (.get t r.2 false)
    if flags &&& oCloexec ≠ 0 then w.fdOp (.fcntlSetfd t r.2 true) else w

/-- The loop of `sys_recvmsg` that installs the descriptions of a message. The first that does not
get a slot is closed by `f_install`, the ones after it here. -/
def installAll (t : TaskId) : HostWorld → List (ℕ × ℕ × Bool) → HostWorld
  | w, [] => w
  | w, (h, rlimit, oom) :: rest =>
    let r := w.fInstall t h 0 rlimit oom
    if r.2 < 0 then rest.foldl (fun w x => w.fdOp (.drop x.1)) r.1 else installAll t r.1 rest

/-- `sys_recvmsg`. With a message that carries descriptors the host gives one of its own, if there
is a control buffer. -/
def sysRecvmsg (t : TaskId) (sockFd : ℤ) (oom : Bool) (dummy : Option ℕ) (fault peek : Bool)
    (scm : List (ℕ × ℕ × Bool)) : HostWorld :=
  let sock := w.sockGetfd t sockFd oom
  let w := w.fdOp (.get t sockFd oom)
  match sock, dummy with
  | some sock, some n =>
    let w := w.hostOpen n
    -- the data is copied out before the control message is looked at
    if fault then w
    else if sock.domain = afLocal then
      let w := w.hostClose n
      if peek then w else installAll t w scm
    else w
  | _, _ => w

def Runs (t : TaskId) : Prop := (w.fds.pending t).isNone ∧ (w.fds.table t).isSome

/-- What `malloc` returns for a description is new, and so is the variable that it is kept in. -/
def Fresh (h : ℕ) (fd : FdId) : Prop :=
  w.fds.held h = none ∧ w.fds.refcount fd = none ∧ fd ∉ w.fds.closed

instance (t : TaskId) : Decidable (w.Runs t) := inferInstanceAs (Decidable (_ ∧ _))

instance (h : ℕ) (fd : FdId) : Decidable (w.Fresh h fd) := inferInstanceAs (Decidable (_ ∧ _ ∧ _))

end HostWorld

inductive HostFdCall
  | socket (t : TaskId) (h domain type : ℕ) (reply : Option ℕ) (c : Creation)
  | socketpair (t : TaskId) (h domain type : ℕ) (reply : Option (ℕ × ℕ)) (c₀ c₁ : Creation)
    (mapped : Bool)
  | accept (t : TaskId) (h : ℕ) (sockFd : ℤ) (oom : Bool) (reply : Option ℕ) (written : Bool)
    (c : Creation)
  | accept4 (t : TaskId) (h : ℕ) (sockFd : ℤ) (flags : ℕ) (oom : Bool) (reply : Option ℕ)
    (written : Bool) (c : Creation)
  | recvmsg (t : TaskId) (sockFd : ℤ) (oom : Bool) (dummy : Option ℕ) (fault peek : Bool)
    (scm : List (ℕ × ℕ × Bool))
  | pipe2 (t : TaskId) (h flags : ℕ) (reply : Option (ℕ × ℕ)) (c₀ c₁ : Creation) (mapped : Bool)
  /-- `close`, and whatever else is done with descriptions: messages that keep some and let go of
  them, duplicates, and tasks that come and go. -/
  | fd (op : FdOp)

/-- The host gives out descriptors that are not open, and descriptors in messages only to sockets of
its own kind; and memory is given out once. -/
def HostFdCall.Given (w : HostWorld) : HostFdCall → Bool
  | .socket t h _ _ reply c | .accept t h _ _ reply _ c | .accept4 t h _ _ _ reply _ c =>
    w.Runs t ∧ w.Fresh h c.fd ∧ reply.all fun n => !w.isOpen n
  | .socketpair t h _ _ reply c₀ c₁ _ | .pipe2 t h _ reply c₀ c₁ _ =>
    w.Runs t ∧ w.Fresh h c₀.fd ∧ w.Fresh h c₁.fd ∧ c₀.fd ≠ c₁.fd ∧
      reply.all fun p => !w.isOpen p.1 && !w.isOpen p.2 && p.1 != p.2
  | .recvmsg t sockFd oom dummy _ _ _ =>
    w.Runs t ∧ (dummy.all fun n => !w.isOpen n) ∧
      (dummy.isSome → (w.sockGetfd t sockFd oom).all fun s => s.domain = afLocal)
  | .fd _ => true

def HostWorld.call (w : HostWorld) : HostFdCall → HostWorld
  | .socket t h domain type reply c => (w.sysSocket t h domain type reply c).fdOp (.ret t)
  | .socketpair t h domain type reply c₀ c₁ mapped =>
    (w.sysSocketpair t h domain type reply c₀ c₁ mapped).fdOp (.ret t)
  | .accept t h sockFd oom reply written c =>
    (w.sysAccept t h sockFd oom reply written c).1.fdOp (.ret t)
  | .accept4 t h sockFd flags oom reply written c =>
    (w.sysAccept4 t h sockFd flags oom reply written c).fdOp (.ret t)
  | .recvmsg t sockFd oom dummy fault peek scm =>
    (w.sysRecvmsg t sockFd oom dummy fault peek scm).fdOp (.ret t)
  | .pipe2 t h flags reply c₀ c₁ mapped => (w.sysPipe2 t h flags reply c₀ c₁ mapped).fdOp (.ret t)
  | .fd op => w.fdOp op

def hostStep (w : HostWorld) (call : HostFdCall) : HostWorld :=
  if call.Given w then w.call call else w

def HostWorld.init (t : TaskId) (tb : TableId) : HostWorld where
  fds := FdWorld.init t tb
  realFd _ := none
  socket _ := none
  isOpen _ := false
  strays := []

end ShellBox
