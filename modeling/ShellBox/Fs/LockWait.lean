import ShellBox.Fs.LockTable

/-!
# Blocked record-lock requests

A blocking `fcntl_setlk` that finds a conflict sleeps on the condition `posix_unlock` of the inode
and tries again when it is woken. A step of the system is what one thread does while it holds the
lock of the inode; sleeping gives the lock up.

A notification wakes all sleepers. Requests notify whenever they take a lock of the other type
away from their owner, so a request that notifies nobody leaves every lock in place. Closing a
descriptor takes locks away and notifies nobody.
-/

namespace ShellBox

open IntRange

/-- Where a thread is in `fcntl_setlk`: `sleeping` is blocked in `wait_for`, `woken` has been
notified and will try again. -/
inductive LockPhase
  | idle
  | sleeping (request : FileLock)
  | woken (request : FileLock)
  deriving DecidableEq

/-- `notify(&inode->posix_unlock)`, seen by one thread. -/
def LockPhase.wake : LockPhase → LockPhase
  | sleeping request => woken request
  | phase            => phase

structure LockWorld where
  table : LockTable
  phase : ℕ → LockPhase

inductive LockAct
  /-- `fcntl_setlk` up to its end or to `wait_for`, which returns `_EINTR` at once if a signal is
  pending. -/
  | setlk (t : ℕ) (request : FileLock) (blocking signalled : Bool)
  /-- A thread that was notified comes back from `wait_for`, with `_EINTR` or to try again. -/
  | retry (t : ℕ) (interrupted signalled : Bool)
  /-- A sleeping thread wakes up without a notification, for a signal or spuriously. -/
  | wakeUp (t : ℕ)
  /-- `fdtable_close`. -/
  | close (owner : LockOwner)

namespace LockWorld

def init : LockWorld := { table := [], phase := fun _ => .idle }

def notify (notified : Bool) (w : LockWorld) : LockWorld :=
  if notified then { w with phase := fun t => (w.phase t).wake } else w

def setPhase (w : LockWorld) (t : ℕ) (p : LockPhase) : LockWorld :=
  { w with phase := Function.update w.phase t p }

/-- One round of the loop of `fcntl_setlk`. -/
def tryLock (w : LockWorld) (t : ℕ) (request : FileLock) (blocking signalled : Bool) : LockWorld :=
  let reply := fileLockAcquire w.table request
  let w := { w with table := reply.table }.notify reply.notified
  if reply.eagain ∧ blocking ∧ ¬ signalled then w.setPhase t (.sleeping request)
  else w.setPhase t .idle

def step (w : LockWorld) : LockAct → LockWorld
  | .setlk t request blocking signalled =>
    if w.phase t = .idle then w.tryLock t request blocking signalled else w
  | .retry t interrupted signalled =>
    match w.phase t with
    | .woken request =>
      if interrupted then w.setPhase t .idle else w.tryLock t request true signalled
    | _ => w
  | .wakeUp t => w.setPhase t (w.phase t).wake
  | .close owner => { w with table := fileLockRemoveOwnedBy w.table owner }

def Stranded (w : LockWorld) (t : ℕ) (request : FileLock) : Prop :=
  w.phase t = .sleeping request ∧ ∀ l ∈ w.table, ¬ l.Conflict request

/-- Whoever still sleeps after a step has lost none of the locks it waits for, at any byte. -/
def Notifies (w w' : LockWorld) : Prop :=
  ∀ t request, w.phase t = .sleeping request → w'.phase t = .sleeping request →
    ∀ o x ty, o ≠ request.owner → x ∈ request.toIntRange → (ty = .wrlck ∨ request.type = .wrlck) →
      w.table.typeAt o x = some ty → w'.table.typeAt o x = some ty

/-- Ranges are valid, and nobody closes a descriptor while a request sleeps because of a lock of
the closing process. -/
def Admits (w : LockWorld) : LockAct → Prop
  | .setlk _ request _ _ => request.Valid
  | .close owner => ∀ t request, w.phase t = .sleeping request →
      ∀ l ∈ w.table, l.owner = owner → ¬ l.Conflict request
  | _ => True

/-- The request a thread has in `fcntl_setlk`. -/
def Requests (w : LockWorld) (t : ℕ) (request : FileLock) : Prop :=
  w.phase t = .sleeping request ∨ w.phase t = .woken request

structure Inv (w : LockWorld) : Prop where
  wf : w.table.Wf
  valid : ∀ t request, w.Requests t request → request.Valid
  waits : ∀ t request, w.phase t = .sleeping request → ∃ l ∈ w.table, l.Conflict request

end LockWorld

/-! ### Requests that notify nobody -/

lemma lockWalk_silent {ys : LockTable} {r : FileLock} (hys : ∀ l ∈ ys, l.owner = r.owner)
    (h : (lockWalk true r ys).notified = false) :
    ∀ l ∈ ys, l.type ≠ r.type → ¬ l.Overlap r.toIntRange := by
  induction ys generalizing r with
  | nil => simp
  | cons y ys ih =>
    have hys' : ∀ l ∈ ys, l.owner = r.owner := fun l hl => hys l (by simp [hl])
    intro l hl hlt hov
    simp only [lockWalk, hys y (by simp), ne_eq, not_true_eq_false, if_false] at h
    split_ifs at h with hty ht ho
    · rcases List.mem_cons.1 hl with rfl | hl
      · exact hlt hty.symm
      · exact ih (r := r.extend y) hys' h l hl hlt (hov.mono (IntRange.Sub.refl _) (sub_hull _ _))
    · rcases List.mem_cons.1 hl with rfl | hl
      · exact hlt hty.symm
      · exact ih hys' h l hl hlt hov
    · cases h
    · rcases List.mem_cons.1 hl with rfl | hl
      · exact ho hov
      · exact ih hys' h l hl hlt hov

lemma fileLockAcquire_silent {table : LockTable} (h : table.Wf) {r : FileLock}
    (hok : (fileLockAcquire table r).eagain = false)
    (hs : (fileLockAcquire table r).notified = false) :
    ∀ l ∈ table, l.owner = r.owner → l.type ≠ r.type → ¬ l.Overlap r.toIntRange := by
  obtain ⟨xs, ys, zs, rfl, hxs, hys, hzs, hne⟩ := h.grouped.split r.owner
  have hc : ¬ (r.type ≠ .unlck ∧ ∃ l ∈ xs ++ (ys ++ zs), l.Conflict r) := by
    rw [← fileLockAcquire_eagain, hok]
    exact Bool.false_ne_true
  rw [fileLockAcquire, if_neg hc, lockWalk_split hxs hys hzs hne] at hs
  intro l hl hlo
  rcases List.mem_append.1 hl with hl | hl
  · exact absurd hlo (hxs l hl)
  · rcases List.mem_append.1 hl with hl | hl
    · exact lockWalk_silent hys hs l hl
    · exact absurd hlo (hzs l hl)

/-- A request that notifies nobody leaves every lock in place. -/
theorem LockTable.Wf.typeAt_silent {table : LockTable} (h : table.Wf) {r : FileLock}
    (hr : r.Valid) (hs : (fileLockAcquire table r).notified = false) {o : LockOwner} {x : ℤ}
    {t : LockType} (ht : table.typeAt o x = some t) :
    (fileLockAcquire table r).table.typeAt o x = some t := by
  by_cases hok : (fileLockAcquire table r).eagain = true
  · rw [fileLockAcquire_table_eq hok]
    exact ht
  have hok := Bool.eq_false_iff.2 hok
  rw [h.typeAt_acquire hr hok]
  by_cases hox : o = r.owner ∧ x ∈ r.toIntRange
  · obtain ⟨l, hl, hlo, rfl, hx⟩ := h.typeAt_eq_some.1 ht
    -- the lock on the byte has the requested type, or there would have been a notification
    have hlt : l.type = r.type := by
      by_contra hne
      exact fileLockAcquire_silent h hok hs l hl (hlo.trans hox.1) hne (mem_overlap hx hox.2)
    rw [if_pos hox, if_neg (hlt ▸ (h.valid l hl).2), hlt]
  · rw [if_neg hox]
    exact ht

/-! ### Nobody is stranded -/

namespace LockWorld

lemma Inv.init : init.Inv :=
  ⟨.nil, by simp [Requests, LockWorld.init], by simp [LockWorld.init]⟩

lemma conflict_iff {table : LockTable} (h : table.Wf) {r : FileLock} (hr : r.Valid) :
    (∃ l ∈ table, l.Conflict r) ↔ ∃ o x ty, o ≠ r.owner ∧ x ∈ r.toIntRange ∧
      (ty = .wrlck ∨ r.type = .wrlck) ∧ table.typeAt o x = some ty := by
  constructor
  · rintro ⟨l, hl, hlo, hov, hty⟩
    obtain ⟨x, hxl, hxr⟩ := (overlap_iff (h.valid l hl).1.nonempty hr.nonempty).1 hov
    exact ⟨l.owner, x, l.type, hlo, hxr, hty, h.typeAt_eq_some.2 ⟨l, hl, rfl, rfl, hxl⟩⟩
  · rintro ⟨o, x, ty, ho, hx, hty, ht⟩
    obtain ⟨l, hl, rfl, rfl, hxl⟩ := h.typeAt_eq_some.1 ht
    exact ⟨l, hl, ho, mem_overlap hxl hx, hty⟩

lemma Inv.waits_of_notifies {w w' : LockWorld} (h : w.Inv) (hwf : w'.table.Wf)
    (hn : w.Notifies w') {t : ℕ} {request : FileLock} (hs : w.phase t = .sleeping request)
    (hs' : w'.phase t = .sleeping request) : ∃ l ∈ w'.table, l.Conflict request := by
  have hv := h.valid t request (Or.inl hs)
  rw [conflict_iff hwf hv]
  obtain ⟨o, x, ty, ho, hx, hty, ht⟩ := (conflict_iff h.wf hv).1 (h.waits t request hs)
  exact ⟨o, x, ty, ho, hx, hty, hn t request hs hs' o x ty ho hx hty ht⟩

/-- What one step does: the table stays well formed, whoever still sleeps has lost nothing, and
whoever has a request now had it before, or it is a valid one that has just met a conflict. -/
structure StepOk (w w' : LockWorld) : Prop where
  wf : w'.table.Wf
  notifies : w.Notifies w'
  requests : ∀ t request, w'.Requests t request →
    w.Requests t request ∨ request.Valid ∧ ∃ l ∈ w'.table, l.Conflict request
  sleeps : ∀ t request, w'.phase t = .sleeping request →
    w.phase t = .sleeping request ∨ ∃ l ∈ w'.table, l.Conflict request

lemma StepOk.inv {w w' : LockWorld} (h : w.Inv) (hs : w.StepOk w') : w'.Inv := by
  refine ⟨hs.wf, ?_, ?_⟩
  · intro t request hr
    rcases hs.requests t request hr with hr | ⟨hv, -⟩
    · exact h.valid t request hr
    · exact hv
  · intro t request hp
    rcases hs.sleeps t request hp with hp' | hc
    · exact h.waits_of_notifies hs.wf hs.notifies hp' hp
    · exact hc

lemma StepOk.refl {w : LockWorld} (h : w.Inv) : w.StepOk w :=
  ⟨h.wf, fun _ _ _ _ _ _ _ _ _ _ ht => ht, fun _ _ hr => Or.inl hr, fun _ _ hp => Or.inl hp⟩

lemma StepOk.of_setPhase {w : LockWorld} (h : w.Inv) {t : ℕ} {p : LockPhase}
    (hp : p = .idle ∨ p = (w.phase t).wake) : w.StepOk (w.setPhase t p) := by
  have key : ∀ t' request, (w.setPhase t p).Requests t' request → w.Requests t' request := by
    intro t' request hr
    by_cases ht : t' = t
    · subst ht
      rcases hp with rfl | rfl
      · simp [Requests, setPhase] at hr
      · cases hph : w.phase t' <;> simp_all [Requests, setPhase, LockPhase.wake]
    · simpa [Requests, setPhase, ht] using hr
  refine ⟨h.wf, fun _ _ _ _ _ _ _ _ _ _ ht => ht, fun t' r hr => Or.inl (key t' r hr), ?_⟩
  intro t' request hs
  by_cases ht : t' = t
  · subst ht
    rcases hp with rfl | rfl
    · simp [setPhase] at hs
    · cases hph : w.phase t' <;> simp_all [setPhase, LockPhase.wake]
  · exact Or.inl (by simpa [setPhase, ht] using hs)

@[simp] lemma tryLock_table (w : LockWorld) (t : ℕ) (r : FileLock) (blocking signalled : Bool) :
    (w.tryLock t r blocking signalled).table = (fileLockAcquire w.table r).table := by
  simp only [tryLock, notify]
  split_ifs <;> rfl

lemma tryLock_phase_self (w : LockWorld) (t : ℕ) (r : FileLock) (blocking signalled : Bool) :
    (w.tryLock t r blocking signalled).phase t =
      if (fileLockAcquire w.table r).eagain ∧ blocking ∧ ¬ signalled then .sleeping r
      else .idle := by
  simp only [tryLock]
  split_ifs <;> simp [setPhase]

lemma tryLock_phase_other (w : LockWorld) {t t' : ℕ} (ht : t' ≠ t) (r : FileLock)
    (blocking signalled : Bool) :
    (w.tryLock t r blocking signalled).phase t' =
      if (fileLockAcquire w.table r).notified then (w.phase t').wake else w.phase t' := by
  simp only [tryLock]
  split_ifs with h1 h2 h2 <;> simp [setPhase, ht, notify, h2]

lemma StepOk.tryLock {w : LockWorld} (h : w.Inv) {t : ℕ} {r : FileLock} (hr : r.Valid)
    (ht : ∀ request, w.phase t ≠ .sleeping request) (blocking signalled : Bool) :
    w.StepOk (w.tryLock t r blocking signalled) := by
  have hself : ∀ request, (w.tryLock t r blocking signalled).Requests t request →
      request = r ∧ (fileLockAcquire w.table r).eagain = true := by
    intro request hreq
    rw [Requests, tryLock_phase_self] at hreq
    split_ifs at hreq with he
    · have hrr : r = request := by simpa using hreq
      exact ⟨hrr.symm, he.1⟩
    · simp at hreq
  have hconf : (fileLockAcquire w.table r).eagain = true →
      ∃ l ∈ (w.tryLock t r blocking signalled).table, l.Conflict r := by
    intro he
    rw [tryLock_table, fileLockAcquire_table_eq he]
    exact (fileLockAcquire_eagain.1 he).2
  refine ⟨?_, ?_, ?_, ?_⟩
  · rw [tryLock_table]
    exact h.wf.acquire hr
  · intro t' request hs hs' o x ty _ _ _ hty
    have htt : t' ≠ t := fun h' => ht request (h' ▸ hs)
    rw [tryLock_phase_other w htt, hs] at hs'
    rw [tryLock_table]
    refine h.wf.typeAt_silent hr ?_ hty
    -- a notification would have woken the sleeper
    by_contra hn
    rw [Bool.not_eq_false] at hn
    rw [if_pos hn] at hs'
    cases hs'
  · intro t' request hreq
    by_cases htt : t' = t
    · subst htt
      obtain ⟨rfl, he⟩ := hself request hreq
      exact Or.inr ⟨hr, hconf he⟩
    · left
      rw [Requests, tryLock_phase_other w htt] at hreq
      split_ifs at hreq
      · cases hph : w.phase t' <;> simp_all [Requests, LockPhase.wake]
      · exact hreq
  · intro t' request hs
    by_cases htt : t' = t
    · subst htt
      obtain ⟨rfl, he⟩ := hself request (Or.inl hs)
      exact Or.inr (hconf he)
    · left
      rw [tryLock_phase_other w htt] at hs
      split_ifs at hs
      · cases hph : w.phase t' <;> simp_all [LockPhase.wake]
      · exact hs

lemma StepOk.close {w : LockWorld} (h : w.Inv) {owner : LockOwner}
    (ho : ∀ t request, w.phase t = .sleeping request →
      ∀ l ∈ w.table, l.owner = owner → ¬ l.Conflict request) :
    w.StepOk { w with table := fileLockRemoveOwnedBy w.table owner } := by
  have hn : w.Notifies { w with table := fileLockRemoveOwnedBy w.table owner } := by
    intro t request hs _ o x ty hne hx hty ht
    obtain ⟨l, hl, rfl, rfl, hxl⟩ := h.wf.typeAt_eq_some.1 ht
    have hlo : l.owner ≠ owner := by
      intro hlo
      exact ho t request hs l hl hlo ⟨hne, mem_overlap hxl hx, hty⟩
    rw [h.wf.typeAt_removeOwnedBy, if_neg hlo]
    exact ht
  exact ⟨h.wf.removeOwnedBy owner, hn, fun _ _ hr => Or.inl hr, fun _ _ hp => Or.inl hp⟩

/-- The step lemma. -/
theorem stepOk_step {w : LockWorld} {act : LockAct} (h : w.Inv) (hact : w.Admits act) :
    w.StepOk (w.step act) := by
  cases act with
  | setlk t request blocking signalled =>
    simp only [step]
    split_ifs with ht
    · refine StepOk.tryLock h hact ?_ blocking signalled
      simp [ht]
    · exact StepOk.refl h
  | retry t interrupted signalled =>
    simp only [step]
    cases hp : w.phase t with
    | idle => exact StepOk.refl h
    | sleeping request => exact StepOk.refl h
    | woken request =>
      simp only
      split_ifs
      · exact StepOk.of_setPhase h (Or.inl rfl)
      · refine StepOk.tryLock h (h.valid t request (Or.inr hp)) ?_ true signalled
        simp [hp]
  | wakeUp t => exact StepOk.of_setPhase h (Or.inr rfl)
  | close owner => exact StepOk.close h hact

/-- One process holds a write lock, another asks for it and sleeps, the first unlocks. -/
def unlockRun : List LockAct :=
  [.setlk 1 ⟨⟨0, 9⟩, .wrlck, 1, 1⟩ true false, .setlk 2 ⟨⟨0, 9⟩, .wrlck, 2, 2⟩ true false,
    .setlk 1 ⟨⟨0, 9⟩, .unlck, 1, 1⟩ true false]

end LockWorld

end ShellBox
