import Mathlib

/-!
# Counting with an eventfd

An eventfd has a counter under the lock of the descriptor. A read takes the whole counter and
waits while it is zero. A write adds to it and waits while the sum would reach `UINT64_MAX`.
Both look at the counter again whenever they are woken, and both wake everybody when they have
changed it.

A step of a run is what one task does from taking the lock to giving it up, or waking a task. A
task may be woken at any time, and the steps of the tasks come in any order.
-/

namespace ShellBox

inductive EventfdOp
  | read
  | write (increment : BitVec 64)
  deriving DecidableEq

/-- What `eventfd_read` or `eventfd_write` returns. The first two return eight bytes. -/
inductive EventfdRet
  | read (val : BitVec 64)
  | wrote (increment : BitVec 64)
  | einval | eagain | eintr
  deriving DecidableEq

/-- Where a task is: not in a call, before the lock, asleep in `wait_for`, or back from
`pthread_cond_wait`. -/
inductive EventfdPhase
  | idle
  | entered (op : EventfdOp)
  | asleep (op : EventfdOp)
  | woken (op : EventfdOp)
  deriving DecidableEq

/-- The counter, `O_NONBLOCK_` of the descriptor, where each task is, and what the calls have
returned so far. -/
structure EventfdWorld where
  val : BitVec 64
  nonblock : Bool
  phase : ℕ → EventfdPhase
  returned : List (ℕ × EventfdRet)

inductive EventfdAct
  /-- A task calls `eventfd_read` or `eventfd_write` with a buffer of some size. -/
  | call (t : ℕ) (op : EventfdOp) (bufsize : ℕ)
  /-- A task takes the lock. It finds a signal pending when it is back from sleeping, or when it
  is about to sleep. -/
  | run (t : ℕ) (pendingWoken pending : Bool)
  /-- A task is woken. -/
  | wake (t : ℕ)
  | setFlags (nonblock : Bool)

def uint64Max : BitVec 64 := BitVec.allOnes 64
def Eventfd.oNonblock : BitVec 32 := 1 <<< 11
def Eventfd.oCloexec : BitVec 32 := 1 <<< 19
/-- `EFD_SEMAPHORE`, which the source does not know. -/
def efdSemaphore : BitVec 32 := 1

namespace EventfdOp

/-- What an operation makes of the counter and returns, unless its loop goes on waiting. -/
def attempt (val : BitVec 64) : EventfdOp → Option (BitVec 64 × EventfdRet)
  | read            => if val = 0 then none else some (0, .read val)
  | write increment =>
    if val ≥ uint64Max - increment then none else some (val + increment, .wrote increment)

def refused (bufsize : ℕ) : EventfdOp → Bool
  | read            => bufsize < 8
  | write increment => bufsize < 8 || increment = uint64Max

end EventfdOp

def EventfdRet.success : EventfdRet → Bool
  | read _  => true
  | wrote _ => true
  | _       => false

-- What a returned call has read, and what it has written.
def EventfdRet.readVal : EventfdRet → ℕ
  | read val => val.toNat
  | _        => 0

def EventfdRet.wroteVal : EventfdRet → ℕ
  | wrote increment => increment.toNat
  | _               => 0

namespace EventfdWorld

def setPhase (w : EventfdWorld) (t : ℕ) (p : EventfdPhase) : EventfdWorld :=
  { w with phase := Function.update w.phase t p }

def ret (w : EventfdWorld) (t : ℕ) (r : EventfdRet) : EventfdWorld :=
  { w.setPhase t .idle with returned := w.returned ++ [(t, r)] }

/-- `notify`: everybody who sleeps is woken. -/
def notify (w : EventfdWorld) : EventfdWorld :=
  { w with
    phase := fun t =>
      match w.phase t with
      | .asleep op => .woken op
      | p          => p }

/-- The loop of `eventfd_read` and `eventfd_write` from its condition on, and what follows it. -/
def loop (w : EventfdWorld) (t : ℕ) (op : EventfdOp) (pending : Bool) : EventfdWorld :=
  match op.attempt w.val with
  | some (val, r) => { w with val := val }.notify.ret t r
  | none =>
    if w.nonblock then w.ret t .eagain
    else if pending then w.ret t .eintr
    else w.setPhase t (.asleep op)

def step (w : EventfdWorld) : EventfdAct → EventfdWorld
  | .call t op bufsize =>
    if w.phase t ≠ .idle then w
    else if op.refused bufsize then w.ret t .einval
    else w.setPhase t (.entered op)
  | .run t pendingWoken pending =>
    match w.phase t with
    | .entered op => w.loop t op pending
    | .woken op   => if pendingWoken then w.ret t .eintr else w.loop t op pending
    | _           => w
  | .wake t =>
    match w.phase t with
    | .asleep op => w.setPhase t (.woken op)
    | _          => w
  | .setFlags nonblock => { w with nonblock := nonblock }

def run (w : EventfdWorld) (acts : List EventfdAct) : EventfdWorld := acts.foldl step w

/-- `eventfd_poll`: if the types have `POLL_READ` and `POLL_WRITE`. -/
def poll (w : EventfdWorld) : Bool × Bool := (w.val > 0, w.val < uint64Max - 1)

def nonblocking (w : EventfdWorld) (op : EventfdOp) : EventfdRet :=
  match op.attempt w.val with
  | some (_, r) => r
  | none        => .eagain

def readSum (w : EventfdWorld) : ℕ := (w.returned.map (·.2.readVal)).sum

def wroteSum (w : EventfdWorld) : ℕ := (w.returned.map (·.2.wroteVal)).sum

def opOf (w : EventfdWorld) (t : ℕ) : Option EventfdOp :=
  match w.phase t with
  | .idle       => none
  | .entered op => some op
  | .asleep op  => some op
  | .woken op   => some op

end EventfdWorld

/-- `sys_eventfd2`, without the installing of the descriptor: nobody is in a call yet. -/
def sysEventfd2 (initval : BitVec 32) (flags : BitVec 32) : Option EventfdWorld :=
  if flags &&& ~~~(Eventfd.oCloexec ||| Eventfd.oNonblock) ≠ 0 then none
  else
    some
      { val := initval.setWidth 64
        nonblock := flags &&& Eventfd.oNonblock ≠ 0
        phase := fun _ => .idle
        returned := [] }

/-! ### What an operation does to the counter -/

def EventfdOp.CanSucceed (val : BitVec 64) : EventfdOp → Prop
  | read            => 0 < val.toNat
  | write increment => val.toNat + increment.toNat ≤ 2 ^ 64 - 2

namespace EventfdOp

variable {val val' : BitVec 64} {op : EventfdOp} {r : EventfdRet}

lemma toNat_uint64Max : uint64Max.toNat = 2 ^ 64 - 1 := by decide

lemma attempt_isSome_iff (op : EventfdOp) (val : BitVec 64) :
    (op.attempt val).isSome = true ↔ op.CanSucceed val := by
  cases op with
  | read =>
    have hzero : val = 0 ↔ val.toNat = 0 := by simp [BitVec.toNat_eq]
    by_cases h : val = 0
    · simp [attempt, CanSucceed, h]
    · have hne : val.toNat ≠ 0 := fun h' => h (hzero.mpr h')
      simp only [attempt, if_neg h, CanSucceed, Option.isSome_some, true_iff]
      omega
  | write increment =>
    have hinc := increment.isLt
    have hdiff : (uint64Max - increment).toNat = 2 ^ 64 - 1 - increment.toNat := by
      rw [BitVec.toNat_sub_of_le (by rw [BitVec.le_def, toNat_uint64Max]; omega), toNat_uint64Max]
    by_cases h : val ≥ uint64Max - increment
    · have hle : (uint64Max - increment).toNat ≤ val.toNat := h
      simp only [attempt, if_pos h, CanSucceed, Option.isSome_none, Bool.false_eq_true, false_iff]
      omega
    · have hlt : val.toNat < (uint64Max - increment).toNat :=
        Nat.lt_of_not_le fun hle => h hle
      simp only [attempt, if_neg h, CanSucceed, Option.isSome_some, true_iff]
      omega

lemma attempt_balance (h : op.attempt val = some (val', r)) :
    val.toNat + r.wroteVal = val'.toNat + r.readVal ∧
      (val.toNat ≤ 2 ^ 64 - 2 → val'.toNat ≤ 2 ^ 64 - 2) := by
  have hcan : op.CanSucceed val := (attempt_isSome_iff op val).mp (by rw [h]; rfl)
  cases op with
  | read =>
    rw [attempt] at h
    split_ifs at h
    cases h
    simp [EventfdRet.wroteVal, EventfdRet.readVal]
  | write increment =>
    rw [attempt] at h
    split_ifs at h
    cases h
    have hsum : val.toNat + increment.toNat ≤ 2 ^ 64 - 2 := hcan
    simp only [EventfdRet.wroteVal, EventfdRet.readVal, BitVec.toNat_add]
    omega

end EventfdOp

lemma EventfdOp.attempt_success {op : EventfdOp} {val val' : BitVec 64} {r : EventfdRet}
    (h : op.attempt val = some (val', r)) : r.success = true := by
  cases op <;> rw [attempt] at h <;> split_ifs at h <;> cases h <;> rfl

lemma EventfdRet.vals_of_not_success {r : EventfdRet} (h : r.success = false) :
    r.readVal = 0 ∧ r.wroteVal = 0 := by
  cases r with
  | read | wrote => cases h
  | einval | eagain | eintr => exact ⟨rfl, rfl⟩

/-! ### Steps -/

namespace EventfdWorld

variable {w : EventfdWorld} {t : ℕ} {op : EventfdOp}

lemma setPhase_phase_self (w : EventfdWorld) (t : ℕ) (p : EventfdPhase) :
    (w.setPhase t p).phase t = p := Function.update_self ..

lemma setPhase_phase_of_ne {t' : ℕ} {p : EventfdPhase} (h : t' ≠ t) :
    (w.setPhase t p).phase t' = w.phase t' := Function.update_of_ne h ..

/-- A step that leaves the counter alone. A task that falls asleep has found that its operation
cannot succeed. -/
structure Waits (w w' : EventfdWorld) : Prop where
  val : w'.val = w.val
  returned : w'.returned = w.returned ∨
    ∃ t r, w'.returned = w.returned ++ [(t, r)] ∧ r.success = false
  asleep : ∀ t op, w'.phase t = .asleep op →
    w.phase t = .asleep op ∨ op.attempt w.val = none

structure Proceeds (w w' : EventfdWorld) (t : ℕ) (op : EventfdOp) (r : EventfdRet) : Prop where
  inCall : w.opOf t = some op
  val : op.attempt w.val = some (w'.val, r)
  returned : w'.returned = w.returned ++ [(t, r)]
  asleep : ∀ t op, w'.phase t ≠ .asleep op

lemma waits_refl (w : EventfdWorld) : w.Waits w := ⟨rfl, .inl rfl, fun _ _ h => .inl h⟩

lemma waits_setPhase {p : EventfdPhase} (h : ∀ op, p = .asleep op → op.attempt w.val = none) :
    w.Waits (w.setPhase t p) := by
  refine ⟨rfl, .inl rfl, fun t' op' hp => ?_⟩
  by_cases ht : t' = t
  · rw [ht, setPhase_phase_self] at hp
    exact .inr (h op' hp)
  · rw [setPhase_phase_of_ne ht] at hp
    exact .inl hp

lemma waits_ret {r : EventfdRet} (h : r.success = false) : w.Waits (w.ret t r) := by
  have hphase := waits_setPhase (w := w) (t := t) (p := .idle) (by simp)
  exact ⟨rfl, .inr ⟨t, r, rfl, h⟩, hphase.asleep⟩

lemma notify_not_asleep (w : EventfdWorld) (t : ℕ) (op : EventfdOp) :
    w.notify.phase t ≠ .asleep op := by
  rw [notify]
  cases h : w.phase t <;> simp [h]

lemma loop_cases (hop : w.opOf t = some op) (pending : Bool) :
    w.Waits (w.loop t op pending) ∨ ∃ r, w.Proceeds (w.loop t op pending) t op r := by
  rw [loop]
  cases h : op.attempt w.val with
  | none =>
    left
    simp only
    split_ifs
    · exact waits_ret rfl
    · exact waits_ret rfl
    · refine waits_setPhase fun op' hp => ?_
      cases hp
      exact h
  | some res =>
    refine .inr ⟨res.2, hop, h, rfl, fun t' op' hp => ?_⟩
    have hphase : (({ w with val := res.1 } : EventfdWorld).notify.setPhase t .idle).phase t' =
        .asleep op' := hp
    by_cases ht : t' = t
    · rw [ht, setPhase_phase_self] at hphase
      cases hphase
    · rw [setPhase_phase_of_ne ht] at hphase
      exact notify_not_asleep _ _ _ hphase

lemma step_cases (w : EventfdWorld) (a : EventfdAct) :
    w.Waits (w.step a) ∨ ∃ t op r, w.Proceeds (w.step a) t op r := by
  have attempted : ∀ {t op} (pending : Bool), w.opOf t = some op →
      w.Waits (w.loop t op pending) ∨ ∃ t' op' r, w.Proceeds (w.loop t op pending) t' op' r :=
    fun pending hop => (loop_cases hop pending).imp_right fun ⟨r, h⟩ => ⟨_, _, r, h⟩
  cases a with
  | call t op bufsize =>
    rw [step]
    split_ifs
    · exact .inl w.waits_refl
    · exact .inl (waits_ret rfl)
    · exact .inl (waits_setPhase (by simp))
  | run t pendingWoken pending =>
    simp only [step]
    cases h : w.phase t with
    | idle | asleep => exact .inl w.waits_refl
    | entered op => exact attempted pending (by rw [opOf, h])
    | woken op =>
      simp only
      split_ifs
      · exact .inl (waits_ret rfl)
      · exact attempted pending (by rw [opOf, h])
  | wake t =>
    simp only [step]
    cases w.phase t with
    | asleep op => exact .inl (waits_setPhase (by simp))
    | idle | entered | woken => exact .inl w.waits_refl
  | setFlags nonblock => exact .inl ⟨rfl, .inl rfl, fun _ _ h => .inl h⟩

/-! ### Runs -/

/-- What holds in every run from a counter that starts with a value: nothing is lost or read
twice, the counter stays below `UINT64_MAX`, and nobody sleeps who could go on. -/
structure Counts (initval : ℕ) (w : EventfdWorld) : Prop where
  sum : initval + w.wroteSum = w.val.toNat + w.readSum
  bound : w.val.toNat ≤ 2 ^ 64 - 2
  asleep : ∀ t op, w.phase t = .asleep op → op.attempt w.val = none

lemma sums_append {w' : EventfdWorld} {r : EventfdRet}
    (h : w'.returned = w.returned ++ [(t, r)]) :
    w'.readSum = w.readSum + r.readVal ∧ w'.wroteSum = w.wroteSum + r.wroteVal := by
  simp [readSum, wroteSum, h]

lemma Counts.waits {w' : EventfdWorld} {initval : ℕ} (hc : Counts initval w) (h : w.Waits w') :
    Counts initval w' := by
  refine ⟨?_, h.val ▸ hc.bound, fun t op hp => ?_⟩
  · have hsum := hc.sum
    rcases h.returned with hret | ⟨t, r, hret, hfail⟩
    · rw [wroteSum, readSum, hret, h.val]
      exact hsum
    · obtain ⟨hread, hwrote⟩ := EventfdRet.vals_of_not_success hfail
      rw [(sums_append hret).1, (sums_append hret).2, h.val, hread, hwrote]
      exact hsum
  · rw [h.val]
    exact (h.asleep t op hp).elim (hc.asleep t op) id

lemma Counts.proceeds {w' : EventfdWorld} {initval : ℕ} {r : EventfdRet} (hc : Counts initval w)
    (h : w.Proceeds w' t op r) : Counts initval w' := by
  obtain ⟨hbal, hbound⟩ := EventfdOp.attempt_balance h.val
  have hsum := hc.sum
  refine ⟨?_, hbound hc.bound, fun t' op' hp => absurd hp (h.asleep t' op')⟩
  rw [(sums_append h.returned).1, (sums_append h.returned).2]
  linarith

lemma Counts.run {initval : ℕ} (hc : Counts initval w) (acts : List EventfdAct) :
    Counts initval (w.run acts) := by
  induction acts generalizing w with
  | nil => exact hc
  | cons a acts ih =>
    refine ih ?_
    rcases w.step_cases a with h | ⟨t, op, r, h⟩
    · exact hc.waits h
    · exact hc.proceeds h

lemma step_success {a : EventfdAct} {r : EventfdRet}
    (hret : (w.step a).returned = w.returned ++ [(t, r)]) (hr : r.success = true) :
    ∃ op, w.opOf t = some op ∧ op.CanSucceed w.val ∧
      op.attempt w.val = some ((w.step a).val, r) := by
  rcases w.step_cases a with h | ⟨t', op, r', h⟩
  · rcases h.returned with hsame | ⟨t', r', happ, hfail⟩
    · have := congrArg List.length (hsame.symm.trans hret)
      simp at this
    · have := List.append_cancel_left (happ.symm.trans hret)
      cases this
      rw [hr] at hfail
      cases hfail
  · have := List.append_cancel_left (h.returned.symm.trans hret)
    cases this
    exact ⟨op, h.inCall, (op.attempt_isSome_iff w.val).mp (by rw [h.val]; rfl), h.val⟩

lemma nonblocking_success_iff (w : EventfdWorld) (op : EventfdOp) :
    (w.nonblocking op).success = true ↔ op.CanSucceed w.val := by
  rw [← op.attempt_isSome_iff, nonblocking]
  cases h : op.attempt w.val with
  | none => simp [EventfdRet.success]
  | some res => simp [EventfdOp.attempt_success h]

lemma poll_read_iff (w : EventfdWorld) :
    w.poll.1 = true ↔ (w.nonblocking .read).success = true := by
  rw [nonblocking_success_iff, poll, decide_eq_true_iff, gt_iff_lt, BitVec.lt_def]
  rfl

lemma poll_write_iff (w : EventfdWorld) :
    w.poll.2 = true ↔ (w.nonblocking (.write 1)).success = true := by
  have hmax : (uint64Max - 1).toNat = 2 ^ 64 - 2 := by decide
  have hone : (1 : BitVec 64).toNat = 1 := rfl
  rw [nonblocking_success_iff, poll, decide_eq_true_iff, BitVec.lt_def, hmax,
    EventfdOp.CanSucceed, hone]
  omega

end EventfdWorld

lemma sysEventfd2_counts {initval flags : BitVec 32} {w : EventfdWorld}
    (h : sysEventfd2 initval flags = some w) :
    w.Counts initval.toNat ∧ flags &&& efdSemaphore = 0 := by
  rw [sysEventfd2] at h
  split_ifs at h with hflags
  cases h
  have hlt := initval.isLt
  refine ⟨⟨by simp [EventfdWorld.wroteSum, EventfdWorld.readSum]; omega, by simp; omega, by simp⟩,
    ?_⟩
  have hmask : efdSemaphore = efdSemaphore &&& ~~~(Eventfd.oCloexec ||| Eventfd.oNonblock) := by
    decide
  rw [hmask, BitVec.and_comm efdSemaphore, ← BitVec.and_assoc, not_not.mp hflags]
  simp

/-- In every run of an eventfd, with reads and writes of any tasks in any order: the initial value
and what was written are the counter and what was read; the counter stays below `UINT64_MAX`; a
task that sleeps cannot succeed, and one that returns eight bytes could; and `eventfd_poll` has
what a read or a write of one would do without blocking. -/
theorem eventfd_counts {initval flags : BitVec 32} {w : EventfdWorld}
    (h : sysEventfd2 initval flags = some w) (acts : List EventfdAct) :
    flags &&& efdSemaphore = 0 ∧
      initval.toNat + (w.run acts).wroteSum = (w.run acts).val.toNat + (w.run acts).readSum ∧
      (w.run acts).val.toNat ≤ 2 ^ 64 - 2 ∧
      (∀ t op, (w.run acts).phase t = .asleep op → ¬ op.CanSucceed (w.run acts).val) ∧
      (∀ a t r, ((w.run acts).step a).returned = (w.run acts).returned ++ [(t, r)] →
        r.success = true → ∃ op, (w.run acts).opOf t = some op ∧ op.CanSucceed (w.run acts).val ∧
          op.attempt (w.run acts).val = some (((w.run acts).step a).val, r)) ∧
      ((w.run acts).poll.1 = true ↔ ((w.run acts).nonblocking .read).success = true) ∧
      ((w.run acts).poll.2 = true ↔ ((w.run acts).nonblocking (.write 1)).success = true) := by
  obtain ⟨hstart, hmode⟩ := sysEventfd2_counts h
  have hc := hstart.run acts
  refine ⟨hmode, hc.sum, hc.bound, fun t op hp hcan => ?_, fun a t r => EventfdWorld.step_success,
    EventfdWorld.poll_read_iff _, EventfdWorld.poll_write_iff _⟩
  have hsome := (op.attempt_isSome_iff _).mpr hcan
  rw [hc.asleep t op hp] at hsome
  cases hsome

/-- A task sleeps until another one has written, and reads what it wrote. -/
theorem eventfd_counts_five :
    (((sysEventfd2 0 0).get rfl).run [.call 1 .read 8, .run 1 false false,
      .call 2 (.write 5) 8, .run 2 false false, .run 1 false false]).val.toNat ≤ 2 ^ 64 - 2 ∧
    (((sysEventfd2 0 0).get rfl).run [.call 1 .read 8, .run 1 false false,
      .call 2 (.write 5) 8, .run 2 false false, .run 1 false false]).readSum = 5 :=
  ⟨(eventfd_counts (Option.some_get rfl).symm _).2.2.1, by decide⟩

end ShellBox
