import Mathlib

/-!
# Receiving from a socket

A receive that has to wait is made of receives that do not wait. `recvfrom` puts the parts together
where the whole length is asked for. `recvmsg` takes the first part, and expects an address with it.

What comes to the socket, and when a signal comes to the guest, is a list of events for each step of
a call.
-/

namespace ShellBox

/-! ### Addresses -/

inductive SaFamily
  | unspec | afLocal | afInet | afInet6 | other
  deriving DecidableEq

def sockFamilyFromReal : SaFamily → Option UInt8
  | .afLocal => some 1
  | .afInet  => some 2
  | .afInet6 => some 10
  | .unspec  => none
  | .other   => none

structure PeerAddr where
  family : SaFamily
  data : List UInt8
  known : (sockFamilyFromReal family).isSome
  short : data.length ≤ 108

/-- `struct sockaddr_max_` -/
structure SockaddrMax where
  family : SaFamily
  data : List UInt8

namespace SockaddrMax

def zero : SockaddrMax := { family := .unspec, data := List.replicate 108 0 }

def fill (b : SockaddrMax) : Option PeerAddr → SockaddrMax
  | none   => b
  | some a => { family := a.family, data := a.data ++ b.data.drop a.data.length }

end SockaddrMax

def addrLen : Option PeerAddr → ℕ
  | none   => 0
  | some a => a.data.length + 2

inductive RecvError
  | eintr | eagain | einval
  deriving DecidableEq

abbrev GuestName := List UInt8 × ℕ

def unixDomainNull : List UInt8 := 1 :: 0 :: List.replicate 14 0

def sockaddrWrite (b : SockaddrMax) (bufferLen sockaddrLen : ℕ) : Except RecvError GuestName :=
  match sockFamilyFromReal b.family with
  | none        => .error .einval
  | some family =>
    if family = 1 then .ok (unixDomainNull.take (min bufferLen 16), 16)
    else .ok ((family :: 0 :: b.data).take (min bufferLen sockaddrLen), sockaddrLen)

/-! ### Sockets -/

structure Datagram where
  bytes : List UInt8
  source : Option PeerAddr

/-- What is in a socket, and whether a signal that is not blocked waits for the guest. A stream has
bytes, and the host may report the peer with them. -/
structure RecvSocket where
  bytes : List UInt8
  peer : Option PeerAddr
  datagrams : List Datagram
  ended : Bool
  signal : Bool

inductive Arrival
  | data (bytes : List UInt8)
  | datagram (d : Datagram)
  | ended
  | signal

structure Taken where
  bytes : List UInt8
  source : Option PeerAddr

namespace RecvSocket

def arrive₁ (s : RecvSocket) : Arrival → RecvSocket
  | .data bytes => { s with bytes := s.bytes ++ bytes }
  | .datagram d => { s with datagrams := s.datagrams ++ [d] }
  | .ended      => { s with ended := true }
  | .signal     => { s with signal := true }

def arrive (s : RecvSocket) (as : List Arrival) : RecvSocket := as.foldl arrive₁ s

/-- `POLLIN` -/
def readable (stream : Bool) (s : RecvSocket) : Bool :=
  s.ended || if stream then !s.bytes.isEmpty else !s.datagrams.isEmpty

def tryRecv (stream peek : Bool) (len : ℕ) (s : RecvSocket) : Option (Taken × RecvSocket) :=
  if s.readable stream then
    if stream then
      some ({ bytes := s.bytes.take len, source := if s.bytes.isEmpty then none else s.peer },
        if peek then s else { s with bytes := s.bytes.drop len })
    else
      match s.datagrams with
      | []      => some ({ bytes := [], source := none }, s)
      | d :: ds =>
        some ({ bytes := d.bytes.take len, source := d.source },
          if peek then s else { s with datagrams := ds })
  else none

end RecvSocket

/-- The arguments of a receive, and the flags of the socket. One receive gives at most `INT_MAX`
bytes. -/
structure RecvCall where
  stream : Bool
  len : ℕ
  len_lt : len < 2 ^ 31
  peek : Bool
  waitall : Bool
  dontwait : Bool
  guestNonblock : Bool
  hostNonblock : Bool

namespace RecvCall

variable (c : RecvCall)

def shouldWait : Bool := !c.dontwait && !c.guestNonblock && !c.hostNonblock

def waitAll : Bool := c.waitall && c.stream

inductive Attempt (σ : Type*)
  | done (t : Taken) (s : RecvSocket)
  | again (x : σ) (s : RecvSocket)
  | wait

/-- Where a call is: before a receive, or in `sock_wait_readable` before the signals are looked at
or in `poll`. -/
inductive Phase
  | receive | pending | polling

abbrev Got := List UInt8 × Option PeerAddr

def interrupted (got : Got) : Except RecvError Taken :=
  if got.1 = [] then .error .eintr else .ok { bytes := got.1, source := got.2 }

/-- The loop of a receive that waits. Each of its steps comes after the events of one list. -/
def waitLoop (attempt : Got → RecvSocket → Attempt Got) :
    Phase → Got → RecvSocket → List (List Arrival) →
      Option (Except RecvError Taken × RecvSocket × List (List Arrival))
  | _, _, _, [] => none
  | .receive, got, s, as :: rest =>
    match attempt got (s.arrive as) with
    | .done t s    => some (.ok t, s, rest)
    | .again got s => waitLoop attempt .receive got s rest
    | .wait        => waitLoop attempt .pending got (s.arrive as) rest
  | .pending, got, s, as :: rest =>
    if (s.arrive as).signal then some (interrupted got, s.arrive as, rest)
    else waitLoop attempt .polling got (s.arrive as) rest
  | .polling, got, s, as :: rest =>
    if (s.arrive as).readable c.stream then waitLoop attempt .receive got (s.arrive as) rest
    else waitLoop attempt .pending got (s.arrive as) rest

/-- A round of `recvfrom`. -/
def recvfromAttempt (got : Got) (s : RecvSocket) : Attempt Got :=
  match s.tryRecv c.stream c.peek (c.len - got.1.length) with
  | none        => .wait
  | some (t, s) =>
    let source := if got.1 = [] then t.source else got.2
    let bytes := got.1 ++ t.bytes
    if t.bytes = [] then .done { bytes, source } s
    else if !c.waitAll || decide (bytes.length = c.len) then .done { bytes, source } s
    else .again (bytes, source) s

/-- A round of `recvmsg`. -/
def recvmsgAttempt (_ : Got) (s : RecvSocket) : Attempt Got :=
  match s.tryRecv c.stream c.peek c.len with
  | none        => .wait
  | some (t, s) => .done t s

/-! ### One receive of the host -/

/-- A receive waits for all bytes it is asked for, unless the stream has ended. -/
def incomplete (s : RecvSocket) (t : Taken) : Bool :=
  c.waitAll && decide (t.bytes.length < c.len) && !s.ended

/-- What is taken from the socket when a signal ends a receive that has seen some bytes. -/
def takeSeen (seen : Got) (s : RecvSocket) : RecvSocket :=
  if c.peek then s else { s with bytes := s.bytes.drop seen.1.length }

/-- A receive of the host that waits: it looks at what is there, then whether there is a signal, and
sleeps. With `seen` it is about to look for a signal. -/
def hostLoop : Option Got → RecvSocket → List (List Arrival) →
    Option (Except RecvError Taken × RecvSocket × List (List Arrival))
  | _, _, [] => none
  | none, s, as :: rest =>
    match (s.arrive as).tryRecv c.stream c.peek c.len with
    | none          => hostLoop (some ([], none)) (s.arrive as) rest
    | some (t, s') =>
      if c.incomplete (s.arrive as) t then hostLoop (some (t.bytes, t.source)) (s.arrive as) rest
      else some (.ok t, s', rest)
  | some seen, s, as :: rest =>
    if (s.arrive as).signal then
      some (interrupted seen, c.takeSeen seen (s.arrive as), rest)
    else hostLoop none (s.arrive as) rest

def hostRecv (s : RecvSocket) (events : List (List Arrival)) :
    Option (Except RecvError Taken × RecvSocket × List (List Arrival)) :=
  if c.dontwait || c.hostNonblock then
    match events with
    | []         => none
    | as :: rest =>
      match (s.arrive as).tryRecv c.stream c.peek c.len with
      | none         => some (.error .eagain, s.arrive as, rest)
      | some (t, s') => some (.ok t, s', rest)
  else c.hostLoop none s events

/-! ### The system calls -/

abbrev Received := List UInt8 × Option GuestName

/-- The end of `recvfrom`. -/
def recvfromName (guestLen : ℕ) (source : Option PeerAddr) : Except RecvError GuestName :=
  if 0 < addrLen source ∧ (SockaddrMax.zero.fill source).family ≠ .unspec then
    sockaddrWrite (SockaddrMax.zero.fill source) guestLen (addrLen source)
  else .ok ([], 0)

/-- The part of `recvmsg` that is about the name. Its buffer is not initialized. -/
def recvmsgName (buffer : SockaddrMax) (guestLen : ℕ) (source : Option PeerAddr) :
    Except RecvError GuestName :=
  sockaddrWrite (buffer.fill source) (min guestLen 110) (addrLen source)

def deliver (writeName : ℕ → Option PeerAddr → Except RecvError GuestName) (name : Option ℕ)
    (r : Except RecvError Taken) : Except RecvError Received := do
  let t ← r
  match name with
  | none          => .ok (t.bytes, none)
  | some guestLen => do
    let n ← writeName guestLen t.source
    .ok (t.bytes, some n)

def sysRecvfrom (name : Option ℕ) (s : RecvSocket) (events : List (List Arrival)) :
    Option (Except RecvError Received × RecvSocket × List (List Arrival)) :=
  let received := if c.shouldWait then
      c.waitLoop c.recvfromAttempt .receive ([], none) s events
    else c.hostRecv s events
  received.map fun r => (deliver recvfromName name r.1, r.2)

/-- `sys_recvmsg` with one buffer. -/
def sysRecvmsg (buffer : SockaddrMax) (name : Option ℕ) (s : RecvSocket)
    (events : List (List Arrival)) :
    Option (Except RecvError Received × RecvSocket × List (List Arrival)) :=
  let received := if c.shouldWait then
      c.waitLoop c.recvmsgAttempt .receive ([], none) s events
    else c.hostRecv s events
  received.map fun r => (deliver (recvmsgName buffer) name r.1, r.2)

/-! ### Agreement with the host -/

/-- An address in the guest's form. All local addresses are the null address. -/
def forGuest (a : PeerAddr) : List UInt8 :=
  if a.family = .afLocal then unixDomainNull
  else (sockFamilyFromReal a.family).getD 0 :: 0 :: a.data

def guestName (guestLen : ℕ) : Option PeerAddr → GuestName
  | none   => ([], 0)
  | some a => ((forGuest a).take guestLen, (forGuest a).length)

def guestView (name : Option ℕ) : Except RecvError Taken → Except RecvError Received
  | .error e => .error e
  | .ok t    => .ok (t.bytes, name.map fun guestLen => guestName guestLen t.source)

/-- One receive of the host ends just after these events, with this result, and leaves this in the
socket. -/
def HostReceives (s : RecvSocket) (events : List Arrival) (r : Except RecvError Taken)
    (s' : RecvSocket) : Prop :=
  ∃ es : List (List Arrival), es.flatten = events ∧ c.hostRecv s es = some (r, s', [])

/-- What may be in a socket and come to it: the addresses that the host reports, and whether there
is an end. -/
structure Peers where
  sources : Set (Option PeerAddr)
  nonempty : sources.Nonempty
  ends : Bool

namespace Peers

variable (p : Peers)

structure Allows (s : RecvSocket) : Prop where
  peer : s.peer ∈ p.sources
  datagrams : ∀ d ∈ s.datagrams, d.source ∈ p.sources
  ended : s.ended = true → p.ends = true

def AllowsEvent : Arrival → Prop
  | .data _     => True
  | .datagram d => d.source ∈ p.sources
  | .ended      => p.ends = true
  | .signal     => True

end Peers

/-- A call does what one receive of the host does with the same events: what it returns and leaves
in the socket is what such a receive would, and it returns if such a receive would. -/
structure Agrees (p : Peers) (name : Option ℕ)
    (call : RecvSocket → List (List Arrival) →
      Option (Except RecvError Received × RecvSocket × List (List Arrival))) : Prop where
  sound : ∀ s events r s' rest, p.Allows s → (∀ as ∈ events, ∀ e ∈ as, p.AllowsEvent e) →
    call s events = some (r, s', rest) →
      ∃ used r₀, used ++ rest.flatten = events.flatten ∧ c.HostReceives s used r₀ s' ∧
        r = guestView name r₀
  returns : ∀ s events r₀ s₀, p.Allows s → c.HostReceives s events.flatten r₀ s₀ →
    ∃ k, (call s (events ++ List.replicate k [])).isSome = true

end RecvCall

/-! ### Events -/

namespace RecvSocket

variable {s : RecvSocket} {as bs : List Arrival} {front : List UInt8}

@[simp] lemma arrive_nil : s.arrive [] = s := rfl

lemma arrive_append : s.arrive (as ++ bs) = (s.arrive as).arrive bs := List.foldl_append

def prepend (front : List UInt8) (s : RecvSocket) : RecvSocket :=
  { s with bytes := front ++ s.bytes }

@[simp] lemma prepend_nil : s.prepend [] = s := rfl

lemma arrive_prepend : (s.prepend front).arrive as = (s.arrive as).prepend front := by
  induction as generalizing s with
  | nil => rfl
  | cons a as ih =>
    have hstep : (s.prepend front).arrive₁ a = (s.arrive₁ a).prepend front := by
      cases a <;> simp [arrive₁, prepend]
    change ((s.prepend front).arrive₁ a).arrive as = ((s.arrive₁ a).arrive as).prepend front
    rw [hstep, ih]

lemma peer_arrive : (s.arrive as).peer = s.peer := by
  induction as generalizing s with
  | nil => rfl
  | cons a as ih => exact ih.trans (by cases a <;> rfl)

section TryRecv

variable {stream peek : Bool} {len : ℕ}

lemma tryRecv_eq_none : s.tryRecv stream peek len = none ↔ s.readable stream = false := by
  cases hr : s.readable stream with
  | false => exact iff_of_true (by rw [tryRecv, hr]; rfl) rfl
  | true =>
    refine iff_of_false (fun hno => ?_) (by simp)
    simp only [tryRecv, hr, if_true] at hno
    cases stream with
    | true => cases hno
    | false => cases hd : s.datagrams <;> simp [hd] at hno

lemma readable_of_tryRecv {taken : Taken × RecvSocket}
    (htry : s.tryRecv stream peek len = some taken) : s.readable stream = true := by
  by_contra hno
  rw [tryRecv_eq_none.2 (by simpa using hno)] at htry
  cases htry

lemma tryRecv_stream (hr : s.readable true = true) :
    s.tryRecv true peek len =
      some ({ bytes := s.bytes.take len, source := if s.bytes.isEmpty then none else s.peer },
        if peek then s else { s with bytes := s.bytes.drop len }) := by
  rw [tryRecv, if_pos hr, if_pos rfl]

lemma readable_stream : s.readable true = true ↔ s.ended = true ∨ s.bytes ≠ [] := by
  simp [readable]

lemma not_readable_stream : s.readable true = false ↔ s.ended = false ∧ s.bytes = [] := by
  simp [readable]

end TryRecv

end RecvSocket

end ShellBox
