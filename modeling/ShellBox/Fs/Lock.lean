import ShellBox.Logic.IntRange

/-!
# Record locks

An inode keeps the record locks of all processes in one list, grouped by owner. Acquiring a lock
merges it with the adjacent and overlapping locks of the same type, and takes its range away
from the overlapping locks of the other type, in one walk over the locks of the owner.
-/

namespace ShellBox

/-- `F_RDLCK_`, `F_WRLCK_` and `F_UNLCK_`. -/
inductive LockType
  | rdlck | wrlck | unlck
  deriving DecidableEq, Repr

abbrev LockOwner := ℕ

def offTMax : ℤ := 2 ^ 63 - 1

/-- `struct file_lock`, also used for requests. `stop` is the source's `end`. -/
structure FileLock extends IntRange where
  type : LockType
  pid : ℕ
  owner : LockOwner
  deriving DecidableEq, Repr

/-- The list `posix_locks` of an inode. -/
abbrev LockTable := List FileLock

namespace FileLock

/-- `file_locks_overlap` and `file_locks_adjacent` are those of the ranges. -/
def Conflict (a b : FileLock) : Prop :=
  a.owner ≠ b.owner ∧ a.Overlap b.toIntRange ∧ (a.type = .wrlck ∨ b.type = .wrlck)

instance (a b : FileLock) : Decidable (a.Conflict b) := inferInstanceAs (Decidable (_ ∧ _ ∧ _))

def extend (request lock : FileLock) : FileLock :=
  { request with toIntRange := request.hull lock.toIntRange }

def subtract (lock request : FileLock) : List FileLock :=
  (lock.minus request.toIntRange).map fun i => { lock with toIntRange := i }

end FileLock

/-- The state at the end of the walk of `file_lock_acquire`: the request as extended, the locks
left before and from the place where the walk stopped, and whether `posix_unlock` was notified. -/
structure LockWalk where
  request : FileLock
  before : LockTable
  after : LockTable
  notified : Bool

def LockWalk.push (locks : LockTable) (w : LockWalk) : LockWalk :=
  { w with before := locks ++ w.before }

def LockWalk.notify (w : LockWalk) : LockWalk := { w with notified := true }

/-- The walk of `file_lock_acquire`; `found` is `found_our_locks`. -/
def lockWalk : Bool → FileLock → LockTable → LockWalk
  | _, request, [] => { request := request, before := [], after := [], notified := false }
  | found, request, lock :: rest =>
    if lock.owner ≠ request.owner then
      if found then { request := request, before := [], after := lock :: rest, notified := false }
      else (lockWalk found request rest).push [lock]
    else if request.type = lock.type then
      if lock.Touch request.toIntRange then lockWalk true (request.extend lock) rest
      else (lockWalk true request rest).push [lock]
    else if lock.Overlap request.toIntRange then
      ((lockWalk true request rest).push (lock.subtract request)).notify
    else (lockWalk true request rest).push [lock]

/-- What `file_lock_acquire` leaves: the table, whether it returned `_EAGAIN`, and whether it
notified the waiters. -/
structure LockReply where
  table : LockTable
  eagain : Bool
  notified : Bool

def fileLockAcquire (table : LockTable) (request : FileLock) : LockReply :=
  if request.type ≠ .unlck ∧ ∃ lock ∈ table, lock.Conflict request then
    { table := table, eagain := true, notified := false }
  else
    let w := lockWalk false request table
    { table := w.before ++ (if request.type = .unlck then [] else [w.request]) ++ w.after
      eagain := false, notified := w.notified }

def fileLockTest (table : LockTable) (request : FileLock) : Option FileLock :=
  table.find? fun lock => lock.Conflict request

/-- `file_lock_remove_owned_by`, on every close of a descriptor. -/
def fileLockRemoveOwnedBy (table : LockTable) (owner : LockOwner) : LockTable :=
  table.filter fun lock => lock.owner ≠ owner

/-! ### What a table means -/

def LockTable.typeAt (table : LockTable) (owner : LockOwner) (x : ℤ) : Option LockType :=
  (table.find? fun lock => lock.owner = owner ∧ x ∈ lock.toIntRange).map FileLock.type

def FileLock.Valid (request : FileLock) : Prop :=
  0 ≤ request.start ∧ request.start ≤ request.stop ∧ request.stop ≤ offTMax

/-- Two locks of one owner stay apart, and are merged if they have the same type. -/
def FileLock.Apart (a b : FileLock) : Prop :=
  ¬ a.Overlap b.toIntRange ∧ (a.type = b.type → ¬ a.Touch b.toIntRange)

inductive LockOp
  | acquire (request : FileLock)
  | removeOwnedBy (owner : LockOwner)

def LockOp.apply (table : LockTable) : LockOp → LockTable
  | acquire request     => (fileLockAcquire table request).table
  | removeOwnedBy owner => fileLockRemoveOwnedBy table owner

def LockOp.Valid : LockOp → Prop
  | acquire request => request.Valid
  | removeOwnedBy _ => True

end ShellBox
