import ShellBox.Logic.Loop

/-!
# Futexes

A waiter puts itself into the queue of its futex and then polls a pipe of its own without any
lock. Between two polls it looks at its deadline, at the group's exit, at its signals and at the
word it waits on, and may decide to give up. A waker writes to the pipes of the waiters it takes
off the queue, and counts them.

A step is what one thread does while it holds `futex_lock`, or one check of a waiter.
-/

namespace ShellBox

structure FutexKey where
  mem : ℕ
  addr : ℕ
  deriving DecidableEq

/-- What `futex_wait` returns. -/
inductive FutexRet
  | success | eagain | efault | enomem | eintr | etimedout
  deriving DecidableEq, Repr

/-- Where a waiter is in `futex_wait` once it is in the queue. -/
inductive FutexPhase
  | deadline
  | polling
  | exitCheck
  | signalCheck
  | valueCheck
  | stallCheck
  /-- The return value is decided; `futex_lock` is taken next. -/
  | leaving (err : FutexRet)
  /-- The safety valve: `futex_lock` is taken next, then the thread group ends. -/
  | exiting
  deriving DecidableEq, Repr

def FutexPhase.decided : FutexPhase → Bool
  | leaving _ | exiting => true
  | _ => false

def FutexPhase.givenUp : FutexPhase → Bool
  | leaving err => err ≠ .success
  | exiting => true
  | _ => false

/-- `struct futex_wait` with the local variables of `futex_wait`. `counted` is not in the source:
it says that a waker has counted this wait. -/
structure FutexWait where
  uaddr : FutexKey
  futex : FutexKey
  val : BitVec 32
  timeout : Option ℤ
  deadlineNs : ℤ
  stallCount : ℕ
  phase : FutexPhase
  counted : Bool

structure FutexObs where
  now : ℤ := 0
  doingGroupExit : Bool := false
  sigPending : Bool := false
  live : ℕ := 1
  hasLiveChildren : Bool := false

def FutexWait.check (x : FutexWait) (bytes : ℕ) (word : Option (BitVec 32)) (o : FutexObs) :
    FutexWait :=
  match x.phase with
  | .deadline =>
    if x.deadlineNs ≠ 0 ∧ (x.deadlineNs - o.now).tdiv 1000000 ≤ 0 then
      { x with phase := .leaving .etimedout }
    else { x with phase := .polling }
  | .polling =>
    if 0 < bytes then { x with phase := .leaving .success }
    else { x with phase := .exitCheck, stallCount := x.stallCount + 1 }
  | .exitCheck =>
    if o.doingGroupExit then { x with phase := .leaving .eintr }
    else { x with phase := .signalCheck }
  | .signalCheck =>
    if o.sigPending then { x with phase := .leaving .eintr } else { x with phase := .valueCheck }
  | .valueCheck =>
    match word with
    | none => { x with phase := .leaving .efault }
    | some v =>
      if v ≠ x.val then { x with phase := .leaving .success }
      else { x with phase := .stallCheck }
  | .stallCheck =>
    if x.timeout = none ∧ 1800 ≤ x.stallCount then
      if 1 < o.live ∧ ¬ o.hasLiveChildren then { x with phase := .exiting }
      else if o.hasLiveChildren then { x with phase := .deadline, stallCount := 0 }
      else { x with phase := .deadline }
    else { x with phase := .deadline }
  | .leaving _ => x
  | .exiting   => x

/-- A call of `futex_wake_op` between its change of the word and its wakes. -/
structure FutexWakeOp where
  uaddr : FutexKey
  wakeMax1 : ℕ
  uaddr2 : FutexKey
  wakeMax2 : ℕ
  cmpTrue : Bool

/-- What `futex_wake_op` does to the word, and how the comparison comes out: nothing if the
operation is not known or its argument is bad, no comparison if that is not known. -/
def futexOp (val3 old : BitVec 32) : Option (BitVec 32 × Option Bool) :=
  let opCode := (val3 >>> 28).toNat % 16
  let cmpCode := (val3 >>> 24).toNat % 16
  let oparg := (val3 <<< 8).sshiftRight 20
  let cmparg := (val3 <<< 20).sshiftRight 20
  let shift := 8 ≤ opCode
  let arg := if shift then 1#32 <<< oparg.toNat else oparg
  if shift ∧ (oparg.toInt < 0 ∨ 31 < oparg.toInt) then none
  else do
    let new ← match opCode % 8 with
      | 0 => some arg
      | 1 => some (old + arg)
      | 2 => some (old ||| arg)
      | 3 => some (old &&& ~~~arg)
      | 4 => some (old ^^^ arg)
      | _ => none
    let cmp := match cmpCode with
      | 0 => some (decide (old.toInt = cmparg.toInt))
      | 1 => some (decide (old.toInt ≠ cmparg.toInt))
      | 2 => some (decide (old.toInt < cmparg.toInt))
      | 3 => some (decide (old.toInt ≤ cmparg.toInt))
      | 4 => some (decide (old.toInt > cmparg.toInt))
      | 5 => some (decide (old.toInt ≥ cmparg.toInt))
      | _ => none
    some (new, cmp)

structure FutexReply where
  woken : ℕ
  requeued : ℕ
  deriving DecidableEq

structure FutexReturn where
  err : FutexRet
  counted : Bool
  deriving DecidableEq

/-- The futexes and the tasks that use them. `returned` and `replies` list what the calls have
returned so far. -/
structure FutexWorld where
  mem : FutexKey → Option (BitVec 32)
  queue : FutexKey → List ℕ
  wait : ℕ → Option FutexWait
  pipe : ℕ → ℕ
  op : ℕ → Option FutexWakeOp
  returned : List FutexReturn
  replies : List FutexReply

inductive FutexAct
  /-- The guest writes the word, or its page comes or goes. -/
  | store (key : FutexKey) (word : Option (BitVec 32))
  /-- `futex_wait` up to its loop; `now` is the clock and `pipes` tells if a pipe can be made. -/
  | wait (t : ℕ) (key : FutexKey) (val : BitVec 32) (timeout : Option ℤ) (now : ℤ) (pipes : Bool)
  /-- The next check of a waiter, or its way out. -/
  | proceed (t : ℕ) (o : FutexObs)
  | wake (key : FutexKey) (wakeMax : ℕ)
  /-- `FUTEX_REQUEUE`, and `FUTEX_CMP_REQUEUE` with an expected word. -/
  | requeue (key : FutexKey) (wakeMax requeueMax : ℕ) (requeueKey : FutexKey)
      (expected : Option (BitVec 32))
  /-- `futex_wake_op` up to its wakes. -/
  | wakeOp (t : ℕ) (key : FutexKey) (wakeMax1 : ℕ) (key2 : FutexKey) (wakeMax2 : ℕ)
      (val3 : BitVec 32)
  | wakeOpEnd (t : ℕ)

namespace FutexWorld

open Function

def init : FutexWorld :=
  { mem := fun _ => some 0, queue := fun _ => [], wait := fun _ => none, pipe := fun _ => 0
    op := fun _ => none, returned := [], replies := [] }

/-- A call of `futex_wait` returns. -/
def ret (w : FutexWorld) (err : FutexRet) (counted : Bool) : FutexWorld :=
  { w with returned := w.returned ++ [{ err := err, counted := counted }] }

def reply (w : FutexWorld) (woken requeued : ℕ) : FutexWorld :=
  { w with replies := w.replies ++ [{ woken := woken, requeued := requeued }] }

/-- The part of `futex_wait` that puts the waiter into the queue. -/
def enqueue (w : FutexWorld) (t : ℕ) (x : FutexWait) : FutexWorld :=
  { w with
    queue := update w.queue x.futex (w.queue x.futex ++ [t])
    wait := update w.wait t (some x)
    pipe := update w.pipe t 0 }

def futexWait (w : FutexWorld) (t : ℕ) (key : FutexKey) (val : BitVec 32) (timeout : Option ℤ)
    (now : ℤ) (pipes : Bool) : FutexWorld :=
  match w.mem key with
  | none => w.ret .efault false
  | some tmp =>
    if tmp ≠ val then w.ret .eagain false
    else if ¬ pipes then w.ret .enomem false
    else w.enqueue t
      { uaddr := key, futex := key, val := val, timeout := timeout
        deadlineNs := (timeout.map (now + ·)).getD 0, stallCount := 0
        phase := .deadline, counted := false }

def leave (w : FutexWorld) (t : ℕ) : FutexWorld :=
  { w with queue := fun k => (w.queue k).erase t, wait := update w.wait t none }

def proceed (w : FutexWorld) (t : ℕ) (x : FutexWait) (o : FutexObs) : FutexWorld :=
  match x.phase with
  | .leaving err => (w.leave t).ret err x.counted
  | .exiting     => w.leave t
  | .polling     =>
    { w with
      wait := update w.wait t (some (x.check (w.pipe t) (w.mem x.uaddr) o))
      pipe := update w.pipe t 0 }
  | _ => { w with wait := update w.wait t (some (x.check (w.pipe t) (w.mem x.uaddr) o)) }

def wakeFirst (w : FutexWorld) (key : FutexKey) (t : ℕ) (rest : List ℕ) : FutexWorld :=
  { w with
    queue := update w.queue key rest
    wait := update w.wait t ((w.wait t).map fun x => { x with counted := true })
    pipe := update w.pipe t (w.pipe t + 1) }

/-- `futex_wake_queue`, with its count. -/
def futexWakeQueue (key : FutexKey) : ℕ → FutexWorld → FutexWorld × ℕ
  | 0, w => (w, 0)
  | wakeMax + 1, w =>
    match w.queue key with
    | [] => (w, 0)
    | t :: rest =>
      let r := futexWakeQueue key wakeMax (w.wakeFirst key t rest)
      (r.1, r.2 + 1)

def moveFirst (w : FutexWorld) (key key2 : FutexKey) (t : ℕ) (rest : List ℕ) : FutexWorld :=
  let queue := update w.queue key rest
  { w with
    queue := update queue key2 (queue key2 ++ [t])
    wait := update w.wait t ((w.wait t).map fun x => { x with futex := key2 }) }

/-- The requeue loop, with its count. It goes round a queue that is requeued to itself, but not
with a single waiter: there the loop finds its end at once. -/
def requeueLoop (key key2 : FutexKey) : ℕ → FutexWorld → FutexWorld × ℕ
  | 0, w => (w, 0)
  | requeueMax + 1, w =>
    match w.queue key with
    | [] => (w, 0)
    | t :: rest =>
      if key2 = key ∧ rest = [] then (w.moveFirst key key2 t rest, 1)
      else
        let r := requeueLoop key key2 requeueMax (w.moveFirst key key2 t rest)
        (r.1, r.2 + 1)

/-- `futex_wakelike` for `FUTEX_WAKE`. -/
def futexWake (w : FutexWorld) (key : FutexKey) (wakeMax : ℕ) : FutexWorld :=
  let r := futexWakeQueue key wakeMax w
  r.1.reply r.2 0

/-- `futex_wakelike` for `FUTEX_REQUEUE`. -/
def futexRequeue (w : FutexWorld) (key : FutexKey) (wakeMax requeueMax : ℕ)
    (requeueKey : FutexKey) : FutexWorld :=
  let r := futexWakeQueue key wakeMax w
  let q := requeueLoop key requeueKey requeueMax r.1
  q.1.reply r.2 q.2

def futexCmpRequeue (w : FutexWorld) (key : FutexKey) (wakeMax requeueMax : ℕ)
    (requeueKey : FutexKey) (expected : BitVec 32) : FutexWorld :=
  if w.mem key = some expected then w.futexRequeue key wakeMax requeueMax requeueKey else w

/-- The part of `futex_wake_op` that changes the word. -/
def futexWakeOpBegin (w : FutexWorld) (t : ℕ) (key : FutexKey) (wakeMax1 : ℕ) (key2 : FutexKey)
    (wakeMax2 : ℕ) (val3 : BitVec 32) : FutexWorld :=
  match (w.mem key2).bind (futexOp val3) with
  | none => w
  | some (new, cmp) =>
    { w with
      mem := update w.mem key2 (some new)
      op := update w.op t (cmp.map fun c =>
        { uaddr := key, wakeMax1 := wakeMax1, uaddr2 := key2, wakeMax2 := wakeMax2
          cmpTrue := c }) }

/-- The wakes of `futex_wake_op`. -/
def futexWakeOpEnd (w : FutexWorld) (t : ℕ) (op : FutexWakeOp) : FutexWorld :=
  let r := futexWakeQueue op.uaddr op.wakeMax1 w
  let r2 := if op.cmpTrue then futexWakeQueue op.uaddr2 op.wakeMax2 r.1 else (r.1, 0)
  { r2.1.reply (r.2 + r2.2) 0 with op := update w.op t none }

def step (w : FutexWorld) : FutexAct → FutexWorld
  | .store key word => { w with mem := update w.mem key word }
  | .wait t key val timeout now pipes =>
    if w.wait t = none ∧ w.op t = none then w.futexWait t key val timeout now pipes else w
  | .proceed t o =>
    match w.wait t with
    | some x => w.proceed t x o
    | none   => w
  | .wake key wakeMax => w.futexWake key wakeMax
  | .requeue key wakeMax requeueMax requeueKey none =>
    w.futexRequeue key wakeMax requeueMax requeueKey
  | .requeue key wakeMax requeueMax requeueKey (some expected) =>
    w.futexCmpRequeue key wakeMax requeueMax requeueKey expected
  | .wakeOp t key wakeMax1 key2 wakeMax2 val3 =>
    if w.wait t = none ∧ w.op t = none then
      w.futexWakeOpBegin t key wakeMax1 key2 wakeMax2 val3
    else w
  | .wakeOpEnd t =>
    match w.op t with
    | some op => w.futexWakeOpEnd t op
    | none    => w

end FutexWorld

end ShellBox
