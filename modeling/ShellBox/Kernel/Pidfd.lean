import ShellBox.Logic.Loop

/-!
# Descriptors of processes

`pidfd_open` looks a process up under `pids_lock` and then puts the descriptor, which keeps only
the number, on a list. The exit of a process, under `pids_lock`, marks the descriptors of its number
and wakes the poll sets that have one. `poll_wait` sleeps for at most a second at a time and then
looks again. In between it may check, with the poll set locked, whether its process has been idle
for too long, and takes `pids_lock` for that.
-/

namespace ShellBox

open Function

/-- A process: the pid of its leader, the threads on its group's list, and `leader->zombie`. -/
structure PidProc where
  pid : ℕ
  threads : List ℕ
  zombie : Bool
  deriving DecidableEq

/-- `struct fd` of a pidfd. `proc` is the process that was found for it. -/
structure Pidfd where
  pid : ℕ
  exited : Bool
  proc : ℕ
  deriving DecidableEq

/-- `struct poll_fd`, with the types `POLL_READ`, `POLL_EDGETRIGGERED` and `POLL_ONESHOT`. -/
structure PidfdReg where
  poll : ℕ
  fd : ℕ
  fdNo : ℕ
  read : Bool
  edge : Bool
  oneshot : Bool
  triggered : Bool
  oneshotFired : Bool
  deriving DecidableEq

/-- Processes have names that are not used again, `proc 0` is `init`. `publishing` is the process
whose exit holds `pids_lock`, `idle` the task that holds the lock of a poll set for its check. -/
structure PidfdWorld where
  proc : ℕ → Option PidProc
  task : ℕ → Option ℕ
  opening : ℕ → Option (ℕ × ℕ)
  fd : ℕ → Option Pidfd
  pidfdList : List ℕ
  regs : List PidfdReg
  waiting : ℕ → List ℕ
  idle : ℕ → Option ℕ
  publishing : Option ℕ
  halted : Bool

inductive PidfdEvent
  | fork (child pid : ℕ)
  | newThread (p tid : ℕ)
  | exit (tid : ℕ)
  | publish
  | valve (tid : ℕ)
  | reap (pid : ℕ)
  | openCheck (caller pid : ℕ)
  | openInstall (caller f : ℕ)
  | openFail (caller : ℕ)
  | close (f : ℕ)
  | pollAdd (r : PidfdReg)
  | pollMod (r : PidfdReg)
  | pollDel (q f fdNo : ℕ)
  | pollDestroy (q : ℕ)
  | look (q t : ℕ) (others : Bool) (took : PidfdReg → Bool)
  | idleBegin (q t : ℕ)
  | idleEnd (q : ℕ)

namespace PidfdWorld

variable (w : PidfdWorld)

def matchesProc (p f : ℕ) : Bool :=
  f ∈ w.pidfdList ∧ (w.fd f).any fun d => (w.proc p).any fun P => d.pid = P.pid

/-- The exit of `p` has to lock the poll set `q`. -/
def notifies (p q : ℕ) : Bool := w.regs.any fun r => r.poll = q ∧ w.matchesProc p r.fd

/-- `task_create_` and `tgroup_copy`. -/
def fork (child pid : ℕ) : PidfdWorld :=
  if (w.proc child).isNone ∧ (w.task pid).isNone then
    { w with
      proc := update w.proc child (some ⟨pid, [pid], false⟩)
      task := update w.task pid (some child) }
  else w

/-- A clone with `CLONE_THREAD`. -/
def newThread (p tid : ℕ) : PidfdWorld :=
  match w.proc p with
  | none => w
  | some P =>
    if P.threads ≠ [] ∧ (w.task tid).isNone then
      { w with
        proc := update w.proc p (some { P with threads := tid :: P.threads })
        task := update w.task tid (some p) }
    else w

/-- `do_exit` up to the notification. The exit of `init` in its leader ends the machine. -/
def exit (tid : ℕ) : PidfdWorld :=
  match w.task tid with
  | none => w
  | some p =>
    match w.proc p with
    | none => w
    | some P =>
      if tid ∉ P.threads then w
      else
        let task := if tid = P.pid then w.task else update w.task tid none
        let threads := P.threads.erase tid
        if threads ≠ [] ∨ P.zombie then
          { w with proc := update w.proc p (some { P with threads }), task }
        else if p = 0 ∧ tid = 1 then { w with halted := true }
        else
          { w with
            proc := update w.proc p (some { P with threads, zombie := true })
            task
            publishing := some p }

/-- `poll_wakeup` for a registration. -/
def wakeReg (p : ℕ) (r : PidfdReg) : PidfdReg :=
  if w.matchesProc p r.fd ∧ ¬ r.oneshotFired ∧ r.edge then { r with triggered := false } else r

/-- `pidfd_notify_exit`, and the end of the exit. It waits for the locks of the poll sets. -/
def publish : PidfdWorld :=
  match w.publishing with
  | none => w
  | some p =>
    if w.regs.any fun r => w.matchesProc p r.fd ∧ (w.idle r.poll).isSome then w
    else
      { w with
        fd := fun f => (w.fd f).map fun d =>
          if w.matchesProc p f then { d with exited := true } else d
        regs := w.regs.map (w.wakeReg p)
        publishing := none }

/-- `do_exit_group` gives up on all other threads. -/
def valve (tid : ℕ) : PidfdWorld :=
  match w.task tid with
  | none => w
  | some p =>
    { w with proc := update w.proc p ((w.proc p).map fun P =>
        if tid ∈ P.threads then { P with threads := [tid] } else P) }

/-- `reap_if_zombie`, and the automatic reaping in `do_exit`. -/
def reap (pid : ℕ) : PidfdWorld :=
  match w.task pid with
  | none => w
  | some p =>
    if (w.proc p).any fun P => P.pid = pid ∧ P.zombie then { w with task := update w.task pid none }
    else w

/-- The first half of `sys_pidfd_open`. -/
def openCheck (caller pid : ℕ) : PidfdWorld :=
  match w.task pid with
  | none => w
  | some p =>
    if (w.proc p).any fun P => P.pid = pid ∧ ¬ P.zombie then
      { w with opening := update w.opening caller (some (pid, p)) }
    else w

/-- The second half of `sys_pidfd_open`. -/
def openInstall (caller f : ℕ) : PidfdWorld :=
  match w.opening caller, w.fd f with
  | some (pid, p), none =>
    { w with
      opening := update w.opening caller none
      fd := update w.fd f (some ⟨pid, false, p⟩)
      pidfdList := f :: w.pidfdList }
  | _, _ => w

/-- `poll_cleanup_fd` and `pidfd_close`. -/
def close (f : ℕ) : PidfdWorld :=
  if w.regs.any fun r => r.fd = f ∧ (w.idle r.poll).isSome then w
  else
    { w with
      fd := update w.fd f none
      pidfdList := w.pidfdList.filter (· ≠ f)
      regs := w.regs.filter fun r => r.fd ≠ f }

def sameReg (r r' : PidfdReg) : Bool := r.poll = r'.poll ∧ r.fd = r'.fd ∧ r.fdNo = r'.fdNo

def pollAdd (r : PidfdReg) : PidfdWorld :=
  if (w.idle r.poll).isSome ∨ (w.fd r.fd).isNone ∨ w.regs.any (sameReg r) then w
  else { w with regs := { r with triggered := false, oneshotFired := false } :: w.regs }

/-- `poll_mod_fd` puts back a oneshot registration, and keeps the edges that are still asked
for. -/
def pollMod (r : PidfdReg) : PidfdWorld :=
  if (w.idle r.poll).isSome then w
  else
    { w with regs := w.regs.map fun r' =>
        if sameReg r r' then
          { r with triggered := r'.triggered && r.read, oneshotFired := false }
        else r' }

def pollDel (q f fdNo : ℕ) : PidfdWorld :=
  if (w.idle q).isSome then w
  else { w with regs := w.regs.filter fun r => ¬ (r.poll = q ∧ r.fd = f ∧ r.fdNo = fdNo) }

def pollDestroy (q : ℕ) : PidfdWorld :=
  if w.waiting q = [] then { w with regs := w.regs.filter fun r => r.poll ≠ q } else w

/-- `pidfd_poll`, as `poll_wait` asks it for a registration. -/
def reports (r : PidfdReg) : Bool :=
  ¬ r.oneshotFired ∧ (w.fd r.fd).any Pidfd.exited ∧ r.read ∧ ¬ (r.edge ∧ r.triggered)

def tookReg (r : PidfdReg) : PidfdReg :=
  { r with triggered := r.triggered || r.edge, oneshotFired := r.oneshotFired || r.oneshot }

/-- A pass of the loop of `poll_wait`: it returns when a pidfd or another descriptor is ready, or
for a signal or the timeout (`others`), and else sleeps until its next pass. -/
def look (q t : ℕ) (others : Bool) (took : PidfdReg → Bool) : PidfdWorld :=
  if (w.idle q).isSome then w
  else
    { w with
      waiting := update w.waiting q
        (if others ∨ w.regs.any (fun r => r.poll = q ∧ w.reports r) then
          (w.waiting q).filter (· ≠ t)
        else t :: (w.waiting q).filter (· ≠ t))
      regs := w.regs.map fun r =>
        if r.poll = q ∧ w.reports r ∧ took r then tookReg r else r }

/-- A task of a process that seems to have been idle for long goes for `pids_lock`, with the poll
set locked. -/
def idleBegin (q t : ℕ) : PidfdWorld :=
  if t ≠ 1 ∧ (w.idle q).isNone ∧ t ∈ w.waiting q then { w with idle := update w.idle q (some t) }
  else w

/-- It gets `pids_lock`, unless an exit has it. -/
def idleEnd (q : ℕ) : PidfdWorld :=
  if w.publishing.isNone then { w with idle := update w.idle q none } else w

end PidfdWorld

open PidfdWorld in
/-- What takes `pids_lock` waits for the exit that has it; after the end of `init` nothing runs. -/
def pidfdStep (w : PidfdWorld) (e : PidfdEvent) : PidfdWorld :=
  if w.halted then w
  else
    match e with
    | .fork child pid => if w.publishing.isNone then w.fork child pid else w
    | .newThread p tid => if w.publishing.isNone then w.newThread p tid else w
    | .exit tid => if w.publishing.isNone then w.exit tid else w
    | .publish => w.publish
    | .valve tid => if w.publishing.isNone then w.valve tid else w
    | .reap pid => if w.publishing.isNone then w.reap pid else w
    | .openCheck caller pid => if w.publishing.isNone then w.openCheck caller pid else w
    | .openInstall caller f => w.openInstall caller f
    | .openFail caller => { w with opening := update w.opening caller none }
    | .close f => w.close f
    | .pollAdd r => w.pollAdd r
    | .pollMod r => w.pollMod r
    | .pollDel q f fdNo => w.pollDel q f fdNo
    | .pollDestroy q => w.pollDestroy q
    | .look q t others took => w.look q t others took
    | .idleBegin q t => w.idleBegin q t
    | .idleEnd q => w.idleEnd q

def initPidfd : PidfdWorld where
  proc := update (fun _ => none) 0 (some ⟨1, [1], false⟩)
  task := update (fun _ => none) 1 (some 0)
  opening _ := none
  fd _ := none
  pidfdList := []
  regs := []
  waiting _ := []
  idle _ := none
  publishing := none
  halted := false

/-! ### What is kept -/

namespace PidfdWorld

lemma of_update {α : Type*} {f : ℕ → Option α} {k i : ℕ} {v : Option α} {x : α}
    (h : update f k v i = some x) : i = k ∧ v = some x ∨ i ≠ k ∧ f i = some x := by
  by_cases hi : i = k
  · rw [hi, update_self] at h
    exact .inl ⟨hi, h⟩
  · rw [update_of_ne hi] at h
    exact .inr ⟨hi, h⟩

def Terminated (w : PidfdWorld) (p : ℕ) : Prop :=
  w.publishing ≠ some p ∧ ∃ P, w.proc p = some P ∧ P.zombie = true

structure Inv (w : PidfdWorld) : Prop where
  live : ∀ p P, w.proc p = some P → P.zombie = false → w.task P.pid = some p
  dead : ∀ p P, w.proc p = some P → P.zombie = true → P.threads = []
  opening : ∀ c n p, w.opening c = some (n, p) → ∃ P, w.proc p = some P ∧ P.pid = n
  listed : ∀ f d, w.fd f = some d → f ∈ w.pidfdList
  found : ∀ f d, w.fd f = some d → ∃ P, w.proc d.proc = some P ∧ P.pid = d.pid
  regs : ∀ r ∈ w.regs, (w.fd r.fd).isSome = true
  publishing : ∀ p, w.publishing = some p →
    ∃ P, w.proc p = some P ∧ P.zombie = true ∧ w.task P.pid = some p
  readable : ∀ f d, w.fd f = some d → (d.exited = true ↔ w.Terminated d.proc)
  free : ∀ p, w.publishing = some p → ∀ r ∈ w.regs, w.matchesProc p r.fd = true →
    w.idle r.poll = none

variable {w w' : PidfdWorld}

lemma matchesProc_iff {p f : ℕ} : w.matchesProc p f = true ↔
    f ∈ w.pidfdList ∧ ∃ d P, w.fd f = some d ∧ w.proc p = some P ∧ d.pid = P.pid := by
  simp only [matchesProc, decide_eq_true_eq, Option.any_eq_true]
  constructor
  · rintro ⟨hf, d, hd, P, hP, heq⟩
    exact ⟨hf, d, P, hd, hP, heq⟩
  · rintro ⟨hf, d, P, hd, hP, heq⟩
    exact ⟨hf, d, hd, P, hP, heq⟩

lemma Inv.setRegs (h : w.Inv) (regs : List PidfdReg) (waiting : ℕ → List ℕ)
    (hregs : ∀ r ∈ regs, (w.fd r.fd).isSome = true ∧
      (w.idle r.poll = none ∨ ∃ r' ∈ w.regs, r'.poll = r.poll ∧ r'.fd = r.fd)) :
    { w with regs, waiting }.Inv where
  live := h.live
  dead := h.dead
  opening := h.opening
  listed := h.listed
  found := h.found
  regs r hr := (hregs r hr).1
  publishing := h.publishing
  readable := h.readable
  free p hp r hr hmatch := by
    obtain hnone | ⟨r', hr', hpoll, hfd⟩ := (hregs r hr).2
    · exact hnone
    · rw [← hpoll]
      exact h.free p hp r' hr' (hfd ▸ hmatch)

lemma inv_pollAdd (h : w.Inv) (r : PidfdReg) : (w.pollAdd r).Inv := by
  unfold pollAdd
  split_ifs with hc
  · exact h
  · simp only [not_or, Bool.not_eq_true, Option.isSome_eq_false_iff, Option.isNone_iff_eq_none]
      at hc
    refine h.setRegs _ w.waiting fun r' hr' => ?_
    obtain rfl | hr' := List.mem_cons.1 hr'
    · exact ⟨Option.isSome_iff_ne_none.2 hc.2.1, .inl hc.1⟩
    · exact ⟨h.regs r' hr', .inr ⟨r', hr', rfl, rfl⟩⟩

lemma Inv.mapRegs (h : w.Inv) (f : PidfdReg → PidfdReg) (waiting : ℕ → List ℕ)
    (hf : ∀ r ∈ w.regs, (f r).poll = r.poll ∧ (f r).fd = r.fd) :
    { w with regs := w.regs.map f, waiting }.Inv := by
  refine h.setRegs _ waiting fun r hr => ?_
  obtain ⟨r', hr', rfl⟩ := List.mem_map.1 hr
  obtain ⟨hpoll, hfd⟩ := hf r' hr'
  exact ⟨hfd ▸ h.regs r' hr', .inr ⟨r', hr', hpoll.symm, hfd.symm⟩⟩

lemma Inv.filterRegs (h : w.Inv) (f : PidfdReg → Bool) : { w with regs := w.regs.filter f }.Inv :=
  h.setRegs _ w.waiting fun r hr =>
    ⟨h.regs r (List.mem_filter.1 hr).1, .inr ⟨r, (List.mem_filter.1 hr).1, rfl, rfl⟩⟩

lemma inv_pollMod (h : w.Inv) (r : PidfdReg) : (w.pollMod r).Inv := by
  unfold pollMod
  split_ifs
  · exact h
  · refine h.mapRegs _ w.waiting fun r' hr' => ?_
    split_ifs with hsame
    · simp only [sameReg, decide_eq_true_eq] at hsame
      exact ⟨hsame.1, hsame.2.1⟩
    · exact ⟨rfl, rfl⟩

lemma inv_pollDel (h : w.Inv) (q f fdNo : ℕ) : (w.pollDel q f fdNo).Inv := by
  unfold pollDel
  split_ifs
  · exact h
  · exact h.filterRegs _

lemma inv_pollDestroy (h : w.Inv) (q : ℕ) : (w.pollDestroy q).Inv := by
  unfold pollDestroy
  split_ifs
  · exact h.filterRegs _
  · exact h

lemma inv_look (h : w.Inv) (q t : ℕ) (others : Bool) (took : PidfdReg → Bool) :
    (w.look q t others took).Inv := by
  unfold look
  by_cases hidle : (w.idle q).isSome = true
  · rw [if_pos hidle]
    exact h
  · rw [if_neg hidle]
    refine h.mapRegs _ _ fun r hr => ?_
    split_ifs <;> exact ⟨rfl, rfl⟩

lemma Inv.setOpening (h : w.Inv) (opening : ℕ → Option (ℕ × ℕ))
    (hopen : ∀ c n p, opening c = some (n, p) → ∃ P, w.proc p = some P ∧ P.pid = n) :
    { w with opening }.Inv :=
  { h with opening := hopen }

lemma inv_openCheck (h : w.Inv) (caller pid : ℕ) : (w.openCheck caller pid).Inv := by
  unfold openCheck
  cases ht : w.task pid with
  | none => exact h
  | some p =>
    simp only
    split_ifs with hP
    · obtain ⟨P, hP, hpid⟩ := (Option.any_eq_true _ _).1 hP
      simp only [decide_eq_true_eq] at hpid
      refine h.setOpening _ fun c n p' hc => ?_
      obtain ⟨-, hc⟩ | ⟨-, hc⟩ := of_update hc
      · obtain ⟨rfl, rfl⟩ := Prod.mk.inj (Option.some.inj hc)
        exact ⟨P, hP, hpid.1⟩
      · exact h.opening c n p' hc
    · exact h

lemma inv_openFail (h : w.Inv) (caller : ℕ) :
    { w with opening := update w.opening caller none }.Inv := by
  refine h.setOpening _ fun c n p hc => ?_
  obtain ⟨-, hc⟩ | ⟨-, hc⟩ := of_update hc
  · cases hc
  · exact h.opening c n p hc

lemma inv_openInstall (h : w.Inv) (caller f : ℕ)
    (hcond : ∀ n p, w.opening caller = some (n, p) → ¬ w.Terminated p) :
    (w.openInstall caller f).Inv := by
  unfold openInstall
  cases ho : w.opening caller with
  | none => exact h
  | some o =>
    cases hf : w.fd f with
    | some d => exact h
    | none =>
      obtain ⟨n, p⟩ := o
      simp only
      have hne {r : PidfdReg} (hr : r ∈ w.regs) : r.fd ≠ f := by
        intro heq
        have hsome := h.regs r hr
        rw [heq, hf] at hsome
        cases hsome
      have hopening := (inv_openFail h caller).opening
      refine ⟨h.live, h.dead, hopening, ?_, ?_, ?_, h.publishing, ?_, ?_⟩
      · intro f' d hd
        obtain ⟨rfl, -⟩ | ⟨-, hd⟩ := of_update hd
        · exact List.mem_cons_self
        · exact List.mem_cons_of_mem _ (h.listed f' d hd)
      · intro f' d hd
        obtain ⟨-, hd⟩ | ⟨-, hd⟩ := of_update hd
        · obtain rfl := Option.some.inj hd
          exact h.opening caller n p ho
        · exact h.found f' d hd
      · intro r hr
        simp only [update_of_ne (hne hr)]
        exact h.regs r hr
      · intro f' d hd
        obtain ⟨-, hd⟩ | ⟨-, hd⟩ := of_update hd
        · obtain rfl := Option.some.inj hd
          exact iff_of_false Bool.false_ne_true (hcond n p ho)
        · exact h.readable f' d hd
      · intro p' hp' r hr hmatch
        refine h.free p' hp' r hr (matchesProc_iff.2 ?_)
        obtain ⟨hmem, d, P, hd, hP, hpid⟩ := matchesProc_iff.1 hmatch
        obtain ⟨heq, -⟩ | ⟨-, hd⟩ := of_update hd
        · exact absurd heq (hne hr)
        · exact ⟨h.listed _ d hd, d, P, hd, hP, hpid⟩

lemma inv_close (h : w.Inv) (f : ℕ) : (w.close f).Inv := by
  unfold close
  by_cases hidle : (w.regs.any fun r => r.fd = f ∧ (w.idle r.poll).isSome) = true
  · rw [if_pos hidle]
    exact h
  · rw [if_neg hidle]
    have hopen {f' : ℕ} {d : Pidfd} (hd : update w.fd f none f' = some d) :
        f' ≠ f ∧ w.fd f' = some d := by
      obtain ⟨-, hd⟩ | hd := of_update hd
      · cases hd
      · exact hd
    refine ⟨h.live, h.dead, h.opening, ?_, ?_, ?_, h.publishing, ?_, ?_⟩
    · intro f' d hd
      exact List.mem_filter.2 ⟨h.listed f' d (hopen hd).2, by simpa using (hopen hd).1⟩
    · exact fun f' d hd => h.found f' d (hopen hd).2
    · intro r hr
      obtain ⟨hr, hne⟩ := List.mem_filter.1 hr
      have hne : r.fd ≠ f := by simpa using hne
      simp only [update_of_ne hne]
      exact h.regs r hr
    · exact fun f' d hd => h.readable f' d (hopen hd).2
    · intro p hp r hr hmatch
      refine h.free p hp r (List.mem_filter.1 hr).1 (matchesProc_iff.2 ?_)
      obtain ⟨hmem, d, P, hd, hP, hpid⟩ := matchesProc_iff.1 hmatch
      exact ⟨(List.mem_filter.1 hmem).1, d, P, (hopen hd).2, hP, hpid⟩

/-! ### Processes -/

lemma Inv.setThreads (h : w.Inv) {p : ℕ} {P : PidProc} (hP : w.proc p = some P)
    (threads : List ℕ) (task : ℕ → Option ℕ) (hdead : P.zombie = true → threads = [])
    (htask : ∀ p' P', w.proc p' = some P' → w.task P'.pid = some p' → task P'.pid = some p') :
    { w with proc := update w.proc p (some { P with threads }), task }.Inv := by
  have hproc {p' : ℕ} {P' : PidProc} (hp' : w.proc p' = some P') :
      ∃ threads', update w.proc p (some { P with threads }) p' =
        some { P' with threads := threads' } := by
    by_cases heq : p' = p
    · rw [heq, hP] at hp'
      obtain rfl := Option.some.inj hp'
      exact ⟨threads, by rw [heq, update_self]⟩
    · exact ⟨P'.threads, by rw [update_of_ne heq, hp']⟩
  have hback {p' : ℕ} {P' : PidProc}
      (hp' : update w.proc p (some { P with threads }) p' = some P') :
      ∃ P₀, w.proc p' = some P₀ ∧ P₀.pid = P'.pid ∧ P₀.zombie = P'.zombie := by
    obtain ⟨heq, hp'⟩ | ⟨-, hp'⟩ := of_update hp'
    · obtain rfl := Option.some.inj hp'
      exact ⟨P, heq ▸ hP, rfl, rfl⟩
    · exact ⟨P', hp', rfl, rfl⟩
  refine ⟨?_, ?_, ?_, h.listed, ?_, h.regs, ?_, ?_, ?_⟩
  · intro p' P' hp' hzombie
    obtain ⟨P₀, hP₀, hpid, hz⟩ := hback hp'
    rw [← hpid]
    exact htask p' P₀ hP₀ (h.live p' P₀ hP₀ (hz.trans hzombie))
  · intro p' P' hp' hzombie
    obtain ⟨-, hp'⟩ | ⟨-, hp'⟩ := of_update hp'
    · obtain rfl := Option.some.inj hp'
      exact hdead hzombie
    · exact h.dead p' P' hp' hzombie
  · intro c n p' hc
    obtain ⟨P₀, hP₀, hpid⟩ := h.opening c n p' hc
    obtain ⟨threads', hthreads⟩ := hproc hP₀
    exact ⟨_, hthreads, hpid⟩
  · intro f d hd
    obtain ⟨P₀, hP₀, hpid⟩ := h.found f d hd
    obtain ⟨threads', hthreads⟩ := hproc hP₀
    exact ⟨_, hthreads, hpid⟩
  · intro p' hp'
    obtain ⟨P₀, hP₀, hz, ht⟩ := h.publishing p' hp'
    obtain ⟨threads', hthreads⟩ := hproc hP₀
    exact ⟨_, hthreads, hz, htask p' P₀ hP₀ ht⟩
  · intro f d hd
    refine (h.readable f d hd).trans (and_congr_right fun _ => ?_)
    constructor
    · rintro ⟨P₀, hP₀, hz⟩
      obtain ⟨threads', hthreads⟩ := hproc hP₀
      exact ⟨_, hthreads, hz⟩
    · rintro ⟨P', hP', hz⟩
      obtain ⟨P₀, hP₀, -, hz₀⟩ := hback hP'
      exact ⟨P₀, hP₀, hz₀.trans hz⟩
  · intro p' hp' r hr hmatch
    refine h.free p' hp' r hr (matchesProc_iff.2 ?_)
    obtain ⟨hmem, d, P', hd, hP', hpid⟩ := matchesProc_iff.1 hmatch
    obtain ⟨P₀, hP₀, hpid₀, -⟩ := hback hP'
    exact ⟨hmem, d, P₀, hd, hP₀, hpid.trans hpid₀.symm⟩

lemma inv_newThread (h : w.Inv) (p tid : ℕ) : (w.newThread p tid).Inv := by
  unfold newThread
  cases hP : w.proc p with
  | none => exact h
  | some P =>
    simp only
    split_ifs with hc
    · refine h.setThreads hP _ _ (fun hz => absurd (h.dead p P hP hz) hc.1) fun p' P' hP' ht => ?_
      rw [update_of_ne]
      · exact ht
      · intro heq
        rw [heq, Option.isNone_iff_eq_none.1 hc.2] at ht
        cases ht
    · exact h

lemma inv_valve (h : w.Inv) (tid : ℕ) : (w.valve tid).Inv := by
  unfold valve
  cases ht : w.task tid with
  | none => exact h
  | some p =>
    cases hP : w.proc p with
    | none =>
      simp only [hP, Option.map_none]
      rw [← hP, update_eq_self]
      exact h
    | some P =>
      simp only [hP, Option.map_some]
      by_cases hmem : tid ∈ P.threads
      · rw [if_pos hmem]
        refine h.setThreads hP _ w.task (fun hz => ?_) fun _ _ _ ht => ht
        rw [h.dead p P hP hz] at hmem
        cases hmem
      · rw [if_neg hmem, ← hP, update_eq_self]
        exact h

lemma inv_fork (h : w.Inv) (hpub : w.publishing = none) (child pid : ℕ) :
    (w.fork child pid).Inv := by
  unfold fork
  split_ifs with hc
  · have hchild := Option.isNone_iff_eq_none.1 hc.1
    have hpid := Option.isNone_iff_eq_none.1 hc.2
    have hproc {p : ℕ} {P : PidProc} (hp : w.proc p = some P) :
        update w.proc child (some ⟨pid, [pid], false⟩) p = some P := by
      rw [update_of_ne, hp]
      rintro rfl
      rw [hchild] at hp
      cases hp
    refine ⟨?_, ?_, ?_, h.listed, ?_, h.regs, ?_, ?_, ?_⟩
    · intro p P hp hz
      obtain ⟨heq, hp⟩ | ⟨-, hp⟩ := of_update hp
      · obtain rfl := Option.some.inj hp
        rw [heq]
        exact update_self _ _ _
      · have hlive := h.live p P hp hz
        refine (update_of_ne ?_ _ _).trans hlive
        intro hP
        rw [hP, hpid] at hlive
        cases hlive
    · intro p P hp hz
      obtain ⟨-, hp⟩ | ⟨-, hp⟩ := of_update hp
      · obtain rfl := Option.some.inj hp
        cases hz
      · exact h.dead p P hp hz
    · intro c n p hc
      obtain ⟨P, hP, hn⟩ := h.opening c n p hc
      exact ⟨P, hproc hP, hn⟩
    · intro f d hd
      obtain ⟨P, hP, hn⟩ := h.found f d hd
      exact ⟨P, hproc hP, hn⟩
    · intro p hp
      rw [hpub] at hp
      cases hp
    · intro f d hd
      obtain ⟨P₀, hP₀, -⟩ := h.found f d hd
      have hne : d.proc ≠ child := by
        intro heq
        rw [heq, hchild] at hP₀
        cases hP₀
      refine (h.readable f d hd).trans (and_congr_right fun _ => ?_)
      simp only [update_of_ne hne]
    · intro p hp
      rw [hpub] at hp
      cases hp
  · exact h

lemma inv_reap (h : w.Inv) (hpub : w.publishing = none) (pid : ℕ) : (w.reap pid).Inv := by
  unfold reap
  cases ht : w.task pid with
  | none => exact h
  | some p =>
    simp only
    split_ifs with hP
    · obtain ⟨P, hP, hz⟩ := (Option.any_eq_true _ _).1 hP
      simp only [decide_eq_true_eq] at hz
      refine ⟨?_, h.dead, h.opening, h.listed, h.found, h.regs, ?_, h.readable, h.free⟩
      · intro p' P' hp' hz'
        have hlive := h.live p' P' hp' hz'
        refine (update_of_ne ?_ _ _).trans hlive
        intro heq
        rw [heq, ht] at hlive
        obtain rfl := Option.some.inj hlive
        rw [hP] at hp'
        obtain rfl := Option.some.inj hp'
        rw [hz.2] at hz'
        cases hz'
      · intro p' hp'
        rw [hpub] at hp'
        cases hp'
    · exact h

lemma inv_exit (h : w.Inv) (hpub : w.publishing = none) (tid : ℕ)
    (hfree : ∀ p P, w.task tid = some p → w.proc p = some P → P.threads.erase tid = [] →
      ∀ r ∈ w.regs, w.matchesProc p r.fd = true → w.idle r.poll = none) : (w.exit tid).Inv := by
  unfold exit
  cases ht : w.task tid with
  | none => exact h
  | some p =>
    cases hP : w.proc p with
    | none =>
      simp only [hP]
      exact h
    | some P =>
      simp only [hP]
      by_cases hmem : tid ∈ P.threads
      · rw [if_neg (not_not.2 hmem)]
        generalize htask : (if tid = P.pid then w.task else update w.task tid none) = task
        have hkeep (p' : ℕ) (P' : PidProc) (hP' : w.proc p' = some P')
            (ht' : w.task P'.pid = some p') : task P'.pid = some p' := by
          rw [← htask]
          split_ifs with hlead
          · exact ht'
          · rw [update_of_ne, ht']
            intro heq
            rw [heq, ht] at ht'
            obtain rfl := Option.some.inj ht'
            rw [hP] at hP'
            obtain rfl := Option.some.inj hP'
            exact hlead heq.symm
        by_cases hrest : P.threads.erase tid ≠ [] ∨ P.zombie = true
        · rw [if_pos hrest]
          refine h.setThreads hP _ task (fun hz => ?_) hkeep
          rw [h.dead p P hP hz] at hmem
          cases hmem
        · rw [if_neg hrest]
          rw [not_or, not_not, Bool.not_eq_true] at hrest
          obtain ⟨hlast, hlive⟩ := hrest
          split_ifs
          · exact { h with }
          · have hpid {p' : ℕ} {P' : PidProc} (hp' : w.proc p' = some P') :
                ∃ P₁, update w.proc p
                    (some { P with threads := P.threads.erase tid, zombie := true }) p' = some P₁ ∧
                  P₁.pid = P'.pid := by
              by_cases heq : p' = p
              · rw [heq] at hp' ⊢
                obtain rfl := Option.some.inj (hP.symm.trans hp')
                exact ⟨_, update_self _ _ _, rfl⟩
              · exact ⟨P', (update_of_ne heq _ _).trans hp', rfl⟩
            refine ⟨?_, ?_, ?_, h.listed, ?_, h.regs, ?_, ?_, ?_⟩
            · intro p' P' hp' hz
              obtain ⟨-, hp'⟩ | ⟨-, hp'⟩ := of_update hp'
              · obtain rfl := Option.some.inj hp'
                cases hz
              · exact hkeep p' P' hp' (h.live p' P' hp' hz)
            · intro p' P' hp' hz
              obtain ⟨-, hp'⟩ | ⟨-, hp'⟩ := of_update hp'
              · obtain rfl := Option.some.inj hp'
                exact hlast
              · exact h.dead p' P' hp' hz
            · intro c n p' hc
              obtain ⟨P', hP', hn⟩ := h.opening c n p' hc
              obtain ⟨P₁, hP₁, hpid₁⟩ := hpid hP'
              exact ⟨P₁, hP₁, hpid₁.trans hn⟩
            · intro f d hd
              obtain ⟨P', hP', hn⟩ := h.found f d hd
              obtain ⟨P₁, hP₁, hpid₁⟩ := hpid hP'
              exact ⟨P₁, hP₁, hpid₁.trans hn⟩
            · intro p' hp'
              obtain rfl := Option.some.inj hp'
              exact ⟨_, update_self _ _ _, rfl, hkeep p P hP (h.live p P hP hlive)⟩
            · intro f d hd
              by_cases heq : d.proc = p
              · refine iff_of_false (fun hex => ?_) fun hterm => hterm.1 (by rw [heq])
                obtain ⟨-, P', hP', hz⟩ := (h.readable f d hd).1 hex
                rw [heq, hP] at hP'
                obtain rfl := Option.some.inj hP'
                rw [hlive] at hz
                cases hz
              · refine (h.readable f d hd).trans ?_
                unfold Terminated
                rw [hpub]
                simp only [update_of_ne heq, ne_eq, reduceCtorEq, not_false_eq_true, true_and,
                  Option.some.injEq, Ne.symm heq]
            · intro p' hp' r hr hmatch
              obtain rfl := Option.some.inj hp'
              refine hfree p P ht hP hlast r hr (matchesProc_iff.2 ?_)
              obtain ⟨hmem', d, P', hd, hP', hn⟩ := matchesProc_iff.1 hmatch
              obtain ⟨P₁, hP₁, hpid₁⟩ := hpid hP
              obtain rfl := Option.some.inj (hP'.symm.trans hP₁)
              exact ⟨hmem', d, P, hd, hP, hn.trans hpid₁⟩
      · rw [if_pos hmem]
        exact h

lemma inv_publish (h : w.Inv) : w.publish.Inv := by
  unfold publish
  cases hpub : w.publishing with
  | none => exact h
  | some p =>
    simp only
    split_ifs with hidle
    · exact h
    · obtain ⟨P, hP, hz, ht⟩ := h.publishing p hpub
      have hfd {f : ℕ} {d : Pidfd} (hd : ((w.fd f).map fun d =>
          if w.matchesProc p f = true then { d with exited := true } else d) = some d) :
          ∃ d₀, w.fd f = some d₀ ∧ d₀.pid = d.pid ∧ d₀.proc = d.proc ∧
            d.exited = (w.matchesProc p f || d₀.exited) := by
        obtain ⟨d₀, hd₀, rfl⟩ := Option.map_eq_some_iff.1 hd
        refine ⟨d₀, hd₀, ?_⟩
        cases w.matchesProc p f <;> exact ⟨rfl, rfl, rfl⟩
      refine ⟨h.live, h.dead, h.opening, ?_, ?_, ?_, ?_, ?_, ?_⟩
      · intro f d hd
        obtain ⟨d₀, hd₀, -⟩ := hfd hd
        exact h.listed f d₀ hd₀
      · intro f d hd
        obtain ⟨d₀, hd₀, hpid, hproc, -⟩ := hfd hd
        rw [← hpid, ← hproc]
        exact h.found f d₀ hd₀
      · intro r hr
        obtain ⟨r', hr', rfl⟩ := List.mem_map.1 hr
        have hsome := h.regs r' hr'
        unfold wakeReg
        split_ifs <;> simpa using hsome
      · intro p' hp'
        cases hp'
      · intro f d hd
        obtain ⟨d₀, hd₀, hpid, hproc, hex⟩ := hfd hd
        obtain ⟨P₀, hP₀, hpid₀⟩ := h.found f d₀ hd₀
        rw [hex, ← hproc, Bool.or_eq_true, h.readable f d₀ hd₀, Terminated, hpub]
        by_cases heq : d₀.proc = p
        · rw [heq, hP] at hP₀
          obtain rfl := Option.some.inj hP₀
          refine iff_of_true (.inl (matchesProc_iff.2 ?_)) ⟨by simp, P, by rw [heq, hP], hz⟩
          exact ⟨h.listed f d₀ hd₀, d₀, P, hd₀, hP, hpid₀.symm⟩
        · constructor
          · rintro (hmatch | hterm)
            · refine ⟨by simp, P₀, hP₀, ?_⟩
              -- A process that is alive has its number for itself.
              by_contra hlive
              obtain ⟨-, d', P', hd', hP', hn⟩ := matchesProc_iff.1 hmatch
              rw [hP] at hP'
              rw [hd₀] at hd'
              obtain rfl := Option.some.inj hP'
              obtain rfl := Option.some.inj hd'
              have hlive' := h.live d₀.proc P₀ hP₀ (by simpa using hlive)
              rw [hpid₀, hn, ht] at hlive'
              exact heq (Option.some.inj hlive').symm
            · exact ⟨by simp, hterm.2⟩
          · rintro ⟨-, hterm⟩
            exact .inr ⟨fun hp => heq (Option.some.inj hp).symm, hterm⟩
      · intro p' hp'
        cases hp'

lemma inv_idleBegin (h : w.Inv) (q t : ℕ)
    (hcond : ∀ p, w.publishing = some p → w.notifies p q = false) : (w.idleBegin q t).Inv := by
  unfold idleBegin
  split_ifs
  · refine { h with free := fun p hp r hr hmatch => ?_ }
    by_cases heq : r.poll = q
    · have hnot := hcond p hp
      rw [notifies, List.any_eq_false] at hnot
      exact absurd (decide_eq_true ⟨heq, hmatch⟩) (hnot r hr)
    · simp only [update_of_ne heq]
      exact h.free p hp r hr hmatch
  · exact h

lemma inv_idleEnd (h : w.Inv) (q : ℕ) : (w.idleEnd q).Inv := by
  unfold idleEnd
  split_ifs
  · refine { h with free := fun p hp r hr hmatch => ?_ }
    by_cases heq : r.poll = q
    · rw [heq]
      exact update_self _ _ _
    · simp only [update_of_ne heq]
      exact h.free p hp r hr hmatch
  · exact h

end PidfdWorld

open PidfdWorld

/-- A process has not terminated when the descriptor that was opened for it is put on the list, and
no poll set with a descriptor of a process is being checked while the exit of the process has to
wake it. -/
def PidfdCond (w : PidfdWorld) : PidfdEvent → Prop
  | .openInstall caller _ => ∀ n p, w.opening caller = some (n, p) → ¬ w.Terminated p
  | .exit tid => ∀ p P, w.task tid = some p → w.proc p = some P → P.threads.erase tid = [] →
      ∀ r ∈ w.regs, w.matchesProc p r.fd = true → w.idle r.poll = none
  | .idleBegin q _ => ∀ p, w.publishing = some p → w.notifies p q = false
  | _ => True

lemma inv_pidfdStep {w : PidfdWorld} {e : PidfdEvent} (hcond : PidfdCond w e) (h : w.Inv) :
    (pidfdStep w e).Inv := by
  unfold pidfdStep
  by_cases hhalted : w.halted = true
  · rw [if_pos hhalted]
    exact h
  · rw [if_neg hhalted]
    -- What takes `pids_lock` runs if no exit has it.
    have hlocked {w' : PidfdWorld} (hw' : w.publishing = none → w'.Inv) :
        (if w.publishing.isNone = true then w' else w).Inv := by
      split_ifs with hpub
      · exact hw' (Option.isNone_iff_eq_none.1 hpub)
      · exact h
    cases e with
    | fork child pid => exact hlocked fun hpub => inv_fork h hpub child pid
    | newThread p tid => exact hlocked fun _ => inv_newThread h p tid
    | exit tid => exact hlocked fun hpub => inv_exit h hpub tid hcond
    | publish => exact inv_publish h
    | valve tid => exact hlocked fun _ => inv_valve h tid
    | reap pid => exact hlocked fun hpub => inv_reap h hpub pid
    | openCheck caller pid => exact hlocked fun _ => inv_openCheck h caller pid
    | openInstall caller f => exact inv_openInstall h caller f hcond
    | openFail caller => exact inv_openFail h caller
    | close f => exact inv_close h f
    | pollAdd r => exact inv_pollAdd h r
    | pollMod r => exact inv_pollMod h r
    | pollDel q f fdNo => exact inv_pollDel h q f fdNo
    | pollDestroy q => exact inv_pollDestroy h q
    | look q t others took => exact inv_look h q t others took
    | idleBegin q t => exact inv_idleBegin h q t hcond
    | idleEnd q => exact inv_idleEnd h q

lemma inv_initPidfd : initPidfd.Inv where
  live p P hp hz := by
    change update (fun _ => none) 0 (some ⟨1, [1], false⟩) p = some P at hp
    obtain ⟨rfl, hP⟩ | ⟨-, hp⟩ := of_update hp
    · obtain rfl := Option.some.inj hP
      rfl
    · cases hp
  dead p P hp hz := by
    change update (fun _ => none) 0 (some ⟨1, [1], false⟩) p = some P at hp
    obtain ⟨-, hP⟩ | ⟨-, hp⟩ := of_update hp
    · obtain rfl := Option.some.inj hP
      cases hz
    · cases hp
  opening c n p hc := by cases hc
  listed f d hd := by cases hd
  found f d hd := by cases hd
  regs r hr := by cases hr
  publishing p hp := by cases hp
  readable f d hd := by cases hd
  free p hp := by cases hp

/-- It asks for `POLL_READ`, and has not told of it yet. -/
def PidfdReg.Armed (r : PidfdReg) : Prop :=
  r.read = true ∧ r.oneshotFired = false ∧ ¬ (r.edge = true ∧ r.triggered = true)

/-- A pidfd can be read if its process has terminated; and a task that is in `poll_wait` for a
process whose leader is a zombie gets out of it, by what the exit, the check of the poll set and
the task itself do next. -/
structure ExitReported (w : PidfdWorld) : Prop where
  readable : ∀ f d, w.fd f = some d → (d.exited = true ↔ w.Terminated d.proc)
  woken : w.halted = false → ∀ q t r d P, t ∈ w.waiting q → r ∈ w.regs → r.poll = q → r.Armed →
    w.fd r.fd = some d → w.proc d.proc = some P → P.zombie = true → ∀ others took,
      t ∉ (run pidfdStep w [.publish, .idleEnd q, .look q t others took]).waiting q

namespace PidfdWorld

variable {w : PidfdWorld}

lemma look_wakes {q t : ℕ} {r : PidfdReg} (hidle : w.idle q = none) (hr : r ∈ w.regs)
    (hpoll : r.poll = q) (hrep : w.reports r = true) (others : Bool) (took : PidfdReg → Bool) :
    t ∉ (w.look q t others took).waiting q := by
  have hany : (w.regs.any fun r => r.poll = q ∧ w.reports r) = true :=
    List.any_eq_true.2 ⟨r, hr, decide_eq_true ⟨hpoll, hrep⟩⟩
  have hwake : others = true ∨ (w.regs.any fun r => r.poll = q ∧ w.reports r) = true := .inr hany
  unfold look
  rw [if_neg (by simp [hidle]), if_pos hwake]
  simp

lemma publish_keeps (h : w.Inv) : w.publish.publishing = none ∧ w.publish.proc = w.proc ∧
    w.publish.halted = w.halted ∧
    (∀ f d, w.fd f = some d → ∃ d', w.publish.fd f = some d' ∧ d'.proc = d.proc) ∧
    ∀ r ∈ w.regs, r.Armed → ∃ r' ∈ w.publish.regs, r'.poll = r.poll ∧ r'.fd = r.fd ∧ r'.Armed := by
  unfold publish
  cases hpub : w.publishing with
  | none => exact ⟨hpub, rfl, rfl, fun f d hd => ⟨d, hd, rfl⟩, fun r hr ha => ⟨r, hr, rfl, rfl, ha⟩⟩
  | some p =>
    simp only
    rw [if_neg]
    · refine ⟨rfl, rfl, rfl, fun f d hd => ?_, fun r hr ha => ?_⟩
      · simp only [hd, Option.map_some]
        split_ifs <;> exact ⟨_, rfl, rfl⟩
      · refine ⟨_, List.mem_map_of_mem hr, ?_⟩
        unfold wakeReg
        split_ifs
        · exact ⟨rfl, rfl, ha.1, ha.2.1, by simp⟩
        · exact ⟨rfl, rfl, ha⟩
    · rw [Bool.not_eq_true, List.any_eq_false]
      intro r hr hc
      obtain ⟨hmatch, hsome⟩ := of_decide_eq_true hc
      rw [h.free p hpub r hr hmatch] at hsome
      cases hsome

lemma Inv.exitReported (h : w.Inv) : ExitReported w := by
  refine ⟨h.readable, fun hhalted q t r d P ht hr hpoll harmed hd hP hz others took => ?_⟩
  obtain ⟨hpub, hproc, hhalted₁, hfd, hregs⟩ := publish_keeps h
  obtain ⟨d', hd', hdproc⟩ := hfd r.fd d hd
  obtain ⟨r', hr', hpoll', hfd', hread, hfired, hedge⟩ := hregs r hr harmed
  have hterm : w.publish.Terminated d'.proc :=
    ⟨by rw [hpub]; exact nofun, P, by rw [hproc, hdproc, hP], hz⟩
  have hexited : d'.exited = true := ((inv_publish h).readable r.fd d' hd').2 hterm
  have hrun : run pidfdStep w [.publish, .idleEnd q, .look q t others took] =
      ({ w.publish with idle := update w.publish.idle q none }).look q t others took := by
    simp [pidfdStep, idleEnd, hhalted, hhalted₁, hpub]
  have hidle : ({ w.publish with idle := update w.publish.idle q none }).idle q = none :=
    update_self _ _ _
  rw [hrun]
  refine look_wakes hidle hr' (hpoll'.trans hpoll) ?_ others took
  simp only [reports, hfired, hread, hfd', hd', hexited, Option.any_some, Bool.false_eq_true,
    not_false_eq_true, true_and, decide_eq_true_eq]
  exact hedge

end PidfdWorld

end ShellBox
