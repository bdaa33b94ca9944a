import ShellBox.Kernel.Futex
import ShellBox.Util.Timespec

/-!
# The deadlines of timed futex waits

A timeout is made relative, if it is not, by the realtime clock, and from there on it is measured
with the monotonic clock. What is left is counted in whole milliseconds, and a wait with less than
one of them left is over.

The conversions are in signed 64-bit numbers. What they do after an overflow is not defined.
-/

namespace ShellBox

def checkLong (x : ℤ) : Option ℤ := if -2 ^ 63 ≤ x ∧ x < 2 ^ 63 then some x else none

lemma checkLong_eq_some {x y : ℤ} :
    checkLong x = some y ↔ (-2 ^ 63 ≤ x ∧ x < 2 ^ 63) ∧ x = y := by
  unfold checkLong
  split_ifs with h
  · rw [Option.some.injEq, and_iff_right h]
  · exact iff_of_false (by simp) fun h' => h h'.1

lemma checkLong_of_fits {x : ℤ} (h : -2 ^ 63 ≤ x) (h' : x < 2 ^ 63) : checkLong x = some x :=
  if_pos ⟨h, h'⟩

lemma checkLong_of_lt {x : ℤ} (h : x < -2 ^ 63) : checkLong x = none :=
  if_neg fun h' => absurd h'.1 (not_le.2 h)

structure GuestTime extends Timespec where
  long : -2 ^ 63 ≤ sec ∧ sec < 2 ^ 63
  normal : toTimespec.Normal

structure ClockTime extends GuestTime where
  nonneg : 0 ≤ sec

structure Clocks where
  monotonic : ClockTime
  realtime : ClockTime

/-- `op & FUTEX_CMD_MASK_` -/
def futexCmd (op : BitVec 32) : BitVec 32 := op &&& ~~~(128 ||| 256)

/-- The part of `sys_futex` that makes the timeout relative. `now` is the realtime clock. -/
def futexTimeout (op : BitVec 32) (timeout now : Timespec) : Option Timespec :=
  if futexCmd op = 9 then do
    let sec ← checkLong (timeout.sec - now.sec)
    let nsec ← checkLong (timeout.nsec - now.nsec)
    if nsec < 0 then do
      let sec ← checkLong (sec - 1)
      let nsec ← checkLong (nsec + 1000000000)
      some (if sec < 0 then ⟨0, 0⟩ else ⟨sec, nsec⟩)
    else some (if sec < 0 then ⟨0, 0⟩ else ⟨sec, nsec⟩)
  else some timeout

/-- The part of `futex_wait` that makes a deadline of the timeout. `now` is the monotonic clock. -/
def futexDeadline (timeout now : Timespec) : Option ℤ := do
  let nowNs ← checkLong (now.sec * 1000000000)
  let nowNs ← checkLong (nowNs + now.nsec)
  let sec ← checkLong (timeout.sec * 1000000000)
  let deadlineNs ← checkLong (nowNs + sec)
  checkLong (deadlineNs + timeout.nsec)

/-- The timeout of `poll`, when there is time left. -/
def futexPollMs (deadlineNs : ℤ) (now : Timespec) : Option ℤ :=
  if deadlineNs = 0 then some 100
  else do
    let nowNs ← checkLong (now.sec * 1000000000)
    let nowNs ← checkLong (nowNs + now.nsec)
    let remain ← checkLong (deadlineNs - nowNs)
    let remainMs := remain.tdiv 1000000
    some (if 100 < remainMs then 100 else remainMs)

structure FutexLook where
  clocks : Clocks
  bytes : ℕ
  word : Option (BitVec 32)
  obs : FutexObs

def FutexWait.look (x : FutexWait) (l : FutexLook) : FutexWait :=
  x.check l.bytes l.word { l.obs with now := l.clocks.monotonic.ns }

/-- A call of `sys_futex` for a timed wait, with the clocks when it begins and when it reads the
monotonic clock in `futex_wait`. -/
structure FutexTimedCall where
  op : BitVec 32
  waits : futexCmd op = 0 ∨ futexCmd op = 9
  uaddr : FutexKey
  val : BitVec 32
  timeout : GuestTime
  called : Clocks
  started : Clocks

namespace FutexTimedCall

def named (c : FutexTimedCall) (clocks : Clocks) : ℤ :=
  if c.op &&& 256 = 0 then clocks.monotonic.ns else clocks.realtime.ns

/-- What the named clock has to reach: `FUTEX_WAIT_BITSET` has an absolute timeout. -/
def deadline (c : FutexTimedCall) : ℤ :=
  if futexCmd c.op = 9 then c.timeout.ns else c.named c.called + c.timeout.ns

/-- The deadline that `futex_wait` computes. -/
def deadlineNs (c : FutexTimedCall) : Option ℤ := do
  let timeout ← futexTimeout c.op c.timeout.toTimespec c.called.realtime.toTimespec
  futexDeadline timeout c.started.monotonic.toTimespec

/-- The waiter when it enters the loop of `futex_wait`. -/
def waiter (c : FutexTimedCall) (deadlineNs : ℤ) : FutexWait :=
  { uaddr := c.uaddr, futex := c.uaddr, val := c.val, timeout := some c.timeout.ns
    deadlineNs := deadlineNs, stallCount := 0, phase := .deadline, counted := false }

/-- A look at the clock is as it should be: nothing overflows, a wait in `poll` is not negative,
and the wait is over only if the named clock has reached the deadline. -/
structure LookKept (c : FutexTimedCall) (x : FutexWait) (l : FutexLook) : Prop where
  converts : futexPollMs x.deadlineNs l.clocks.monotonic.toTimespec ≠ none
  polls : (x.look l).phase = .polling →
    ∀ ms ∈ futexPollMs x.deadlineNs l.clocks.monotonic.toTimespec, 0 < ms ∧ ms ≤ 100
  reached : (x.look l).phase = .leaving .etimedout → c.deadline ≤ c.named l.clocks

def Kept (c : FutexTimedCall) (looks : List FutexLook) : Prop :=
  ∃ d, c.deadlineNs = some d ∧ ∀ before l after, looks = before ++ l :: after →
    (before.foldl FutexWait.look (c.waiter d)).phase = .deadline →
      c.LookKept (before.foldl FutexWait.look (c.waiter d)) l

/-! ### When it does -/

def span (c : FutexTimedCall) : ℤ :=
  if futexCmd c.op = 9 then max 0 (c.timeout.ns - c.called.realtime.ns) else c.timeout.ns

def due (c : FutexTimedCall) : ℤ := c.started.monotonic.ns + c.span

/-- The times in nanoseconds fit into 64 bits, and so do the seconds of a relative timeout. -/
structure InRange (c : FutexTimedCall) : Prop where
  started : c.started.monotonic.ns < 2 ^ 63
  due : c.due < 2 ^ 63
  relative : futexCmd c.op ≠ 9 → -9223372036 ≤ c.timeout.sec
  absolute : futexCmd c.op = 9 → -2 ^ 63 * nsPerSec ≤ c.timeout.ns - c.called.realtime.ns

/-- The clocks at a look: the monotonic clock fits, and so does what is left. The look is not
in the time from one millisecond before the end of the wait to the deadline. -/
structure Timely (c : FutexTimedCall) (clocks : Clocks) : Prop where
  monotonic : clocks.monotonic.ns < 2 ^ 63
  remain : -2 ^ 63 ≤ c.due - clocks.monotonic.ns
  notEarly : ¬ (c.due - 1000000 < clocks.monotonic.ns ∧ c.named clocks < c.deadline)

end FutexTimedCall

/-! ### The conversions -/

lemma GuestTime.bounds (t : GuestTime) :
    -2 ^ 63 ≤ t.sec ∧ t.sec < 2 ^ 63 ∧ 0 ≤ t.nsec ∧ t.nsec < 1000000000 :=
  ⟨t.long.1, t.long.2, t.normal.1, t.normal.2⟩

lemma ClockTime.bounds (t : ClockTime) :
    0 ≤ t.sec ∧ t.sec < 2 ^ 63 ∧ 0 ≤ t.nsec ∧ t.nsec < 1000000000 :=
  ⟨t.nonneg, t.long.2, t.normal.1, t.normal.2⟩

lemma past_is_zero (sec : ℤ) {nsec : ℤ} (h0 : 0 ≤ nsec) (h1 : nsec < 1000000000) :
    (if sec < 0 then (⟨0, 0⟩ : Timespec) else ⟨sec, nsec⟩).Normal ∧
      (if sec < 0 then (⟨0, 0⟩ : Timespec) else ⟨sec, nsec⟩).ns =
        max 0 (sec * 1000000000 + nsec) ∧
      0 ≤ (if sec < 0 then (⟨0, 0⟩ : Timespec) else ⟨sec, nsec⟩).sec := by
  unfold Timespec.Normal Timespec.ns nsPerSec
  split_ifs with hpast <;> dsimp only <;> omega

lemma futexTimeout_absolute {op : BitVec 32} (hop : futexCmd op = 9) (timeout : GuestTime)
    (now : ClockTime) (hfits : -2 ^ 63 * nsPerSec ≤ timeout.ns - now.ns) :
    ∃ r : Timespec, futexTimeout op timeout.toTimespec now.toTimespec = some r ∧ r.Normal ∧
      r.ns = max 0 (timeout.ns - now.ns) ∧ 0 ≤ r.sec := by
  obtain ⟨hts, hts', htn, htn'⟩ := timeout.bounds
  obtain ⟨hns, hns', hnn, hnn'⟩ := now.bounds
  generalize timeout.toTimespec = x at *
  generalize now.toTimespec = y at *
  simp only [Timespec.ns, nsPerSec] at hfits ⊢
  have hsec : checkLong (x.sec - y.sec) = some (x.sec - y.sec) :=
    checkLong_of_fits (by omega) (by omega)
  have hnsec : checkLong (x.nsec - y.nsec) = some (x.nsec - y.nsec) :=
    checkLong_of_fits (by omega) (by omega)
  simp only [futexTimeout, hop, if_true, hsec, hnsec, Option.bind_eq_bind, Option.bind_some]
  by_cases hborrow : x.nsec - y.nsec < 0
  · have hsec' : checkLong (x.sec - y.sec - 1) = some (x.sec - y.sec - 1) :=
      checkLong_of_fits (by omega) (by omega)
    have hnsec' : checkLong (x.nsec - y.nsec + 1000000000) = some (x.nsec - y.nsec + 1000000000) :=
      checkLong_of_fits (by omega) (by omega)
    simp only [hborrow, if_true, hsec', hnsec', Option.bind_some]
    obtain ⟨hnormal, hns, hpos⟩ := past_is_zero (x.sec - y.sec - 1)
      (show 0 ≤ x.nsec - y.nsec + 1000000000 by omega) (by omega)
    exact ⟨_, rfl, hnormal, hns.trans (by omega), hpos⟩
  · simp only [hborrow, if_false]
    obtain ⟨hnormal, hns, hpos⟩ := past_is_zero (x.sec - y.sec)
      (show 0 ≤ x.nsec - y.nsec by omega) (by omega)
    exact ⟨_, rfl, hnormal, hns.trans (by omega), hpos⟩

lemma futexTimeout_overflow {op : BitVec 32} (hop : futexCmd op = 9) (timeout : GuestTime)
    (now : ClockTime) (hlong : timeout.ns - now.ns < -2 ^ 63 * nsPerSec) :
    futexTimeout op timeout.toTimespec now.toTimespec = none := by
  obtain ⟨hts, hts', htn, htn'⟩ := timeout.bounds
  obtain ⟨hns, hns', hnn, hnn'⟩ := now.bounds
  generalize timeout.toTimespec = x at *
  generalize now.toTimespec = y at *
  simp only [Timespec.ns, nsPerSec] at hlong
  by_cases hfits : -2 ^ 63 ≤ x.sec - y.sec
  · -- the borrow is one too many
    have hsec : checkLong (x.sec - y.sec) = some (x.sec - y.sec) :=
      checkLong_of_fits hfits (by omega)
    have hnsec : checkLong (x.nsec - y.nsec) = some (x.nsec - y.nsec) :=
      checkLong_of_fits (by omega) (by omega)
    have hborrow : x.nsec - y.nsec < 0 := by omega
    have hsec' : checkLong (x.sec - y.sec - 1) = none := checkLong_of_lt (by omega)
    simp only [futexTimeout, hop, if_true, hsec, hnsec, hborrow, hsec', Option.bind_eq_bind,
      Option.bind_some, Option.bind_none]
  · have hsec : checkLong (x.sec - y.sec) = none := checkLong_of_lt (by omega)
    simp only [futexTimeout, hop, if_true, hsec, Option.bind_eq_bind, Option.bind_none]

lemma futexDeadline_eq_some {timeout : Timespec} (ht : timeout.Normal) (now : ClockTime) {d : ℤ} :
    futexDeadline timeout now.toTimespec = some d ↔
      now.ns < 2 ^ 63 ∧ now.ns + timeout.ns < 2 ^ 63 ∧ -9223372036 ≤ timeout.sec ∧
        d = now.ns + timeout.ns := by
  obtain ⟨htn, htn'⟩ := ht
  obtain ⟨hns, hns', hnn, hnn'⟩ := now.bounds
  simp only [nsPerSec] at htn'
  simp only [Timespec.ns, nsPerSec, futexDeadline, Option.bind_eq_bind, Option.bind_eq_some_iff,
    checkLong_eq_some]
  constructor
  · rintro ⟨_, ⟨h1, rfl⟩, _, ⟨h2, rfl⟩, _, ⟨h3, rfl⟩, _, ⟨h4, rfl⟩, h5, rfl⟩
    omega
  · rintro ⟨h1, h2, h3, rfl⟩
    exact ⟨_, ⟨by omega, rfl⟩, _, ⟨by omega, rfl⟩, _, ⟨by omega, rfl⟩, _, ⟨by omega, rfl⟩,
      by omega, by omega⟩

lemma futexPollMs_eq_some {d : ℤ} (hd : d ≠ 0) (now : ClockTime) {ms : ℤ} :
    futexPollMs d now.toTimespec = some ms ↔
      now.ns < 2 ^ 63 ∧ (-2 ^ 63 ≤ d - now.ns ∧ d - now.ns < 2 ^ 63) ∧
        ms = min 100 ((d - now.ns).tdiv 1000000) := by
  obtain ⟨hns, hns', hnn, hnn'⟩ := now.bounds
  simp only [Timespec.ns, nsPerSec, futexPollMs, hd, if_false, Option.bind_eq_bind,
    Option.bind_eq_some_iff, checkLong_eq_some, Option.some.injEq]
  constructor
  · rintro ⟨_, ⟨h1, rfl⟩, _, ⟨h2, rfl⟩, _, ⟨h3, rfl⟩, rfl⟩
    refine ⟨by omega, h3, ?_⟩
    split_ifs <;> omega
  · rintro ⟨h1, h2, rfl⟩
    refine ⟨_, ⟨by omega, rfl⟩, _, ⟨by omega, rfl⟩, _, ⟨h2, rfl⟩, ?_⟩
    split_ifs <;> omega

namespace FutexTimedCall

variable (c : FutexTimedCall)

lemma deadlineNs_eq_some {d : ℤ} : c.deadlineNs = some d ↔ c.InRange ∧ d = c.due := by
  by_cases hop : futexCmd c.op = 9
  · have hspan : c.span = max 0 (c.timeout.ns - c.called.realtime.ns) := if_pos hop
    by_cases hfits : -2 ^ 63 * nsPerSec ≤ c.timeout.ns - c.called.realtime.ns
    · obtain ⟨r, hr, hnormal, hns, hsec⟩ :=
        futexTimeout_absolute hop c.timeout c.called.realtime hfits
      rw [deadlineNs, hr, Option.bind_eq_bind, Option.bind_some, futexDeadline_eq_some hnormal, hns,
        ← hspan]
      constructor
      · rintro ⟨h1, h2, -, rfl⟩
        exact ⟨⟨h1, h2, fun h => absurd hop h, fun _ => hfits⟩, rfl⟩
      · rintro ⟨h, rfl⟩
        exact ⟨h.started, h.due, by omega, rfl⟩
    · rw [deadlineNs, futexTimeout_overflow hop c.timeout c.called.realtime (not_le.1 hfits)]
      simp only [Option.bind_eq_bind, Option.bind_none, reduceCtorEq, false_iff, not_and]
      exact fun h => absurd (h.absolute hop) hfits
  · have hspan : c.span = c.timeout.ns := if_neg hop
    rw [deadlineNs, futexTimeout, if_neg hop, Option.bind_eq_bind, Option.bind_some,
      futexDeadline_eq_some c.timeout.normal, ← hspan]
    constructor
    · rintro ⟨h1, h2, h3, rfl⟩
      exact ⟨⟨h1, h2, fun _ => h3, fun h => absurd h hop⟩, rfl⟩
    · rintro ⟨h, rfl⟩
      exact ⟨h.started, h.due, h.relative hop, rfl⟩

/-! ### The looks at the clock -/

lemma check_deadlineNs (x : FutexWait) (bytes : ℕ) (word : Option (BitVec 32)) (o : FutexObs) :
    (x.check bytes word o).deadlineNs = x.deadlineNs := by
  unfold FutexWait.check
  repeat' split
  all_goals rfl

lemma looks_deadlineNs (x : FutexWait) (looks : List FutexLook) :
    (looks.foldl FutexWait.look x).deadlineNs = x.deadlineNs := by
  induction looks generalizing x with
  | nil => rfl
  | cons l looks ih => exact (ih (x.look l)).trans (check_deadlineNs x _ _ _)

lemma tdiv_million_le_zero {a : ℤ} : a.tdiv 1000000 ≤ 0 ↔ a < 1000000 := by
  rw [Int.tdiv_eq_ediv]
  split_ifs with ha
  · omega
  · have hsign : Int.sign 1000000 = 1 := rfl
    omega

lemma look_phase {x : FutexWait} (hp : x.phase = .deadline) (hd : x.deadlineNs ≠ 0)
    (l : FutexLook) : (x.look l).phase =
      if x.deadlineNs - l.clocks.monotonic.ns < 1000000 then .leaving .etimedout else .polling := by
  simp only [FutexWait.look, FutexWait.check, hp, hd, ne_eq, not_false_eq_true, true_and,
    tdiv_million_le_zero]
  split_ifs <;> rfl

lemma look_phase_zero {x : FutexWait} (hp : x.phase = .deadline) (hd : x.deadlineNs = 0)
    (l : FutexLook) : (x.look l).phase = .polling := by
  simp [FutexWait.look, FutexWait.check, hp, hd]

variable {c} {x : FutexWait}

lemma lookKept_zero (hp : x.phase = .deadline) (hd : x.deadlineNs = 0) (l : FutexLook) :
    c.LookKept x l := by
  have hpoll : futexPollMs x.deadlineNs l.clocks.monotonic.toTimespec = some 100 := if_pos hd
  constructor
  · simp [hpoll]
  · intro _ ms hms
    rw [hpoll, Option.mem_some_iff] at hms
    omega
  · rw [look_phase_zero hp hd]
    simp

lemma lookKept_iff (hr : c.InRange) (hp : x.phase = .deadline) (hx : x.deadlineNs = c.due)
    (hd : c.due ≠ 0) (l : FutexLook) : c.LookKept x l ↔ c.Timely l.clocks := by
  obtain ⟨hns, hns', hnn, hnn'⟩ := l.clocks.monotonic.bounds
  have hnow : 0 ≤ l.clocks.monotonic.ns := by
    unfold Timespec.ns nsPerSec
    omega
  have hdue := hr.due
  have hpoll := @futexPollMs_eq_some c.due hd l.clocks.monotonic
  have hphase := look_phase hp (hx ▸ hd) l
  rw [hx] at hphase
  constructor
  · intro h
    have hconverts := h.converts
    rw [hx] at hconverts
    obtain ⟨ms, hms⟩ := Option.ne_none_iff_exists'.1 hconverts
    obtain ⟨hmono, hremain, -⟩ := hpoll.1 hms
    refine ⟨hmono, hremain.1, ?_⟩
    rintro ⟨hlate, hearly⟩
    have hover : (x.look l).phase = .leaving .etimedout := by
      rw [hphase, if_pos (by omega)]
    exact absurd (h.reached hover) (not_le.2 hearly)
  · intro h
    have hsome := hpoll.2 ⟨h.monotonic, ⟨h.remain, by omega⟩, rfl⟩
    constructor
    · rw [hx, hsome]
      exact Option.some_ne_none _
    · intro hpolls ms hms
      rw [hx, hsome, Option.mem_some_iff] at hms
      rw [hphase] at hpolls
      split_ifs at hpolls with hover
      have hleft : 0 < (c.due - l.clocks.monotonic.ns).tdiv 1000000 :=
        not_le.1 fun hle => hover (tdiv_million_le_zero.1 hle)
      omega
    · intro hover
      rw [hphase] at hover
      split_ifs at hover with hlast
      by_contra hearly
      exact h.notEarly ⟨by omega, not_le.1 hearly⟩

/-- A timed wait keeps its deadline exactly if its times fit, and each look at the clock comes more
than a millisecond before the end of the wait or after the deadline. -/
theorem futexWait_kept_iff (c : FutexTimedCall) (looks : List FutexLook) :
    c.Kept looks ↔ c.InRange ∧ ∀ before l after, looks = before ++ l :: after →
      (before.foldl FutexWait.look (c.waiter c.due)).phase = .deadline → c.due ≠ 0 →
        c.Timely l.clocks := by
  constructor
  · rintro ⟨d, hd, hlooks⟩
    obtain ⟨hr, rfl⟩ := c.deadlineNs_eq_some.1 hd
    refine ⟨hr, fun before l after hl hp hdue => ?_⟩
    exact (lookKept_iff hr hp (looks_deadlineNs _ before) hdue l).1 (hlooks before l after hl hp)
  · rintro ⟨hr, htimely⟩
    refine ⟨c.due, c.deadlineNs_eq_some.2 ⟨hr, rfl⟩, fun before l after hl hp => ?_⟩
    have hx := looks_deadlineNs (c.waiter c.due) before
    by_cases hdue : c.due = 0
    · exact lookKept_zero hp (hx.trans hdue) l
    · exact (lookKept_iff hr hp hx hdue l).2 (htimely before l after hl hp hdue)

def oneSecond : ClockTime := ⟨⟨⟨1, 0⟩, by decide, by decide⟩, by decide⟩

/-- A wait for half a millisecond is over at the first look. -/
theorem halfMillisecond_early :
    ¬ ∀ (c : FutexTimedCall) (looks : List FutexLook), c.Kept looks := by
  intro h
  obtain ⟨d, hd, hlooks⟩ := h
    { op := 0, waits := Or.inl (by decide), uaddr := ⟨0, 0⟩, val := 0
      timeout := ⟨⟨0, 500000⟩, by decide, by decide⟩
      called := ⟨oneSecond, oneSecond⟩, started := ⟨oneSecond, oneSecond⟩ }
    [{ clocks := ⟨oneSecond, oneSecond⟩, bytes := 0, word := some 0, obs := {} }]
  obtain rfl : 1000500000 = d := Option.some.inj hd
  exact absurd ((hlooks [] _ [] rfl rfl).reached (by decide)) (by decide)

end FutexTimedCall

end ShellBox
