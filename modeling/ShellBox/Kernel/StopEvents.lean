import ShellBox.Kernel.Signal
import ShellBox.Kernel.Wait
import ShellBox.Logic.Loop

/-!
# Stop and continue events

A thread that takes a stop signal marks its thread group as stopped and leaves the signal in
`group_exit_code`, and tells its parent at the end of `receive_signals`. `SIGCONT` to a stopped group
leaves a second mark. A wait of the parent reports the marks and clears them. `fork` copies the whole
group, and `exit_group` has the same field for its status.

What happens to a group is noted in a log, and an account of the log says which reports are due.
-/

namespace ShellBox

open Function

def sigcont : ℕ := 18

def isStopSignal (sig : ℕ) : Bool := sig ∈ [19, 20, 21, 22]

def stopStatus (sig : ℕ) : ℕ := sig <<< 8 ||| 0x7f

/-- `struct tgroup` and its threads. `pass` is `was_stopped` of a thread in `receive_signals`, `dying`
the status of a thread that `do_exit_group` sends to `do_exit`. -/
structure StopGroup where
  leader : ℕ
  threads : List ℕ
  pending : ℕ → List ℕ
  pass : ℕ → Option Bool
  dying : ℕ → Option ℕ
  stopped : Bool
  continued : Bool
  doingGroupExit : Bool
  groupExitCode : ℕ
  exitCode : ℕ
  zombie : Bool
  reaped : Bool

inductive StopObs
  | stopped (sig : ℕ)
  /-- The parent of the process is told. -/
  | notified
  | continued
  /-- A stopped group runs again in order to exit. -/
  | killed
  | exitGroup (status : ℕ)
  | leaderExit (status : ℕ)
  | sawStop (status : ℕ) (taken : Bool)
  | sawContinued (taken : Bool)
  | sawExit (status : ℕ)
  deriving DecidableEq

inductive StopEvent
  | newThread (new : ℕ)
  | send (t sig : ℕ)
  | passBegin (t : ℕ)
  | take (t sig : ℕ) (byDefault : Bool)
  | passEnd (t : ℕ)
  | exitGroup (t status : ℕ)
  | valve (t : ℕ)
  | exit (t status : ℕ) (autoReap : Bool)
  | wait (options : WaitOptions)

namespace StopGroup

variable (G : StopGroup)

/-- `send_signal` -/
def send (t sig : ℕ) : StopGroup × List StopObs :=
  if t ∉ G.threads then (G, [])
  else
    let pending :=
      if sig ∈ G.pending t then G.pending else update G.pending t (G.pending t ++ [sig])
    if sig = sigcont ∨ sig = sigkill then
      ({ G with
        pending
        continued := G.continued || (G.stopped && sig = sigcont)
        stopped := false },
        if G.stopped then [if sig = sigcont then .continued else .killed] else [])
    else ({ G with pending }, [])

/-- The start of `receive_signals`. -/
def passBegin (t : ℕ) : StopGroup × List StopObs :=
  if t ∈ G.threads ∧ (G.pass t).isNone ∧ (G.dying t).isNone then
    ({ G with pass := update G.pass t (some G.stopped) }, [])
  else (G, [])

/-- `receive_signal`. A signal that has a handler or is ignored does not stop. -/
def take (t sig : ℕ) (byDefault : Bool) : StopGroup × List StopObs :=
  if t ∈ G.threads ∧ (G.pass t).isSome ∧ sig ∈ G.pending t then
    let pending := update G.pending t ((G.pending t).erase sig)
    if byDefault ∧ isStopSignal sig then
      ({ G with pending, stopped := true, groupExitCode := stopStatus sig },
        if G.stopped then [] else [.stopped sig])
    else ({ G with pending }, [])
  else (G, [])

/-- The end of `receive_signals`. The parent of a thread that is not the leader is a thread of its
own group. -/
def passEnd (t : ℕ) : StopGroup × List StopObs :=
  if t ∈ G.threads then
    match G.pass t with
    | some wasStopped =>
      ({ G with pass := update G.pass t none },
        if ¬ wasStopped ∧ G.stopped ∧ t = G.leader then [.notified] else [])
    | none => (G, [])
  else (G, [])

/-- `do_exit_group`, up to the wait for the other threads. -/
def exitGroup (t status : ℕ) : StopGroup × List StopObs :=
  if t ∈ G.threads ∧ (G.dying t).isNone then
    let code := if G.doingGroupExit then G.groupExitCode else status
    ({ G with
      doingGroupExit := true
      groupExitCode := code
      dying := update G.dying t (some code)
      pass := update G.pass t none
      pending := fun u =>
        if u ∈ G.threads ∧ sigkill ∉ G.pending u then G.pending u ++ [sigkill] else G.pending u
      stopped := false },
      (if G.stopped then [.killed] else []) ++ if G.doingGroupExit then [] else [.exitGroup status])
  else (G, [])

/-- `do_exit_group` gives up on the other threads. -/
def valve (t : ℕ) : StopGroup × List StopObs :=
  if t ∈ G.threads ∧ (G.dying t).isSome then ({ G with threads := [t] }, []) else (G, [])

/-- `do_exit`, called with the status of the group, or by a thread that is not taking signals. -/
def exit (t status : ℕ) (autoReap : Bool) : StopGroup × List StopObs :=
  if t ∈ G.threads ∧ (G.dying t = some status ∨ G.dying t = none ∧ G.pass t = none) then
    let threads := G.threads.erase t
    ({ G with
      threads
      exitCode := if t = G.leader then status else G.exitCode
      zombie := threads = []
      reaped := threads = [] ∧ autoReap },
      if t = G.leader then [.leaderExit status] else [])
  else (G, [])

/-- `reap_if_needed`, for a child that is not traced. -/
def wait (options : WaitOptions) : StopGroup × List StopObs :=
  if G.reaped then (G, [])
  else if hasOption options wuntraced ∧ G.stopped ∧ G.groupExitCode ≠ 0 then
    ({ G with groupExitCode := if hasOption options wnowait then G.groupExitCode else 0 },
      [.sawStop G.groupExitCode (!hasOption options wnowait)])
  else if hasOption options wcontinued ∧ G.continued then
    ({ G with continued := hasOption options wnowait },
      [.sawContinued (!hasOption options wnowait)])
  else if hasOption options wexited ∧ G.zombie then
    ({ G with reaped := !hasOption options wnowait },
      [.sawExit (if G.doingGroupExit then G.groupExitCode else G.exitCode)])
  else (G, [])

def newThread (new : ℕ) : StopGroup × List StopObs :=
  if G.threads ≠ [] ∧ new ∉ G.threads ∧ new ≠ G.leader then
    ({ G with
      threads := new :: G.threads
      pending := update G.pending new []
      pass := update G.pass new none
      dying := update G.dying new none }, [])
  else (G, [])

def step : StopEvent → StopGroup × List StopObs
  | .newThread new => G.newThread new
  | .send t sig => G.send t sig
  | .passBegin t => G.passBegin t
  | .take t sig byDefault => G.take t sig byDefault
  | .passEnd t => G.passEnd t
  | .exitGroup t status => G.exitGroup t status
  | .valve t => G.valve t
  | .exit t status autoReap => G.exit t status autoReap
  | .wait options => G.wait options

/-- `tgroup_copy`, for the leader `child`. -/
def copy (child : ℕ) : StopGroup :=
  { G with
    leader := child
    threads := [child]
    pending := fun _ => []
    pass := fun _ => none
    dying := fun _ => none
    doingGroupExit := false
    exitCode := 0
    zombie := false
    reaped := false }

end StopGroup

structure StopWorld where
  group : ℕ → Option StopGroup
  log : ℕ → List StopObs

inductive StopWorldEvent
  | group (g : ℕ) (e : StopEvent)
  | fork (g t child : ℕ)

def stopStep (w : StopWorld) : StopWorldEvent → StopWorld
  | .group g e =>
    match w.group g with
    | none => w
    | some G =>
      { group := update w.group g (some (G.step e).1)
        log := update w.log g (w.log g ++ (G.step e).2) }
  | .fork g t child =>
    match w.group g with
    | none => w
    | some G =>
      if t ∈ G.threads ∧ (w.group child).isNone then
        { w with group := update w.group child (some (G.copy child)) }
      else w

def freshGroup (leader : ℕ) : StopGroup where
  leader := leader
  threads := [leader]
  pending _ := []
  pass _ := none
  dying _ := none
  stopped := false
  continued := false
  doingGroupExit := false
  groupExitCode := 0
  exitCode := 0
  zombie := false
  reaped := false

def initStop : StopWorld where
  group := update (fun _ => none) 1 (some (freshGroup 1))
  log _ := []

/-! ### The account of a log -/

/-- What the parent of a process is still to be told: the signal of a stop and whether it has been
continued; whether a stop has not been notified yet; and the status of an exit. -/
structure StopAccount where
  report : Option ℕ
  contReport : Bool
  owes : Bool
  exit : Option ℕ
  leaderExit : Option ℕ
  deriving DecidableEq

namespace StopAccount

def zero : StopAccount := ⟨none, false, false, none, none⟩

/-- A stop is reported with its signal, to one wait that takes it and not behind a continuation; a
continuation to one wait, and not behind the next stop; an exit with its status. No stop ends
before the parent is told. -/
def next (a : StopAccount) : StopObs → Option StopAccount
  | .stopped sig =>
    if a.owes then none else some { a with report := some sig, contReport := false, owes := true }
  | .notified => some { a with owes := false }
  | .continued => if a.owes then none else some { a with report := none, contReport := true }
  | .killed => if a.owes then none else some { a with report := none }
  | .exitGroup status => some { a with exit := some status }
  | .leaderExit status => some { a with leaderExit := some status }
  | .sawStop status taken =>
    if a.report.any fun sig => status = stopStatus sig then
      some { a with report := if taken then none else a.report }
    else none
  | .sawContinued taken => if a.contReport then some { a with contReport := !taken } else none
  | .sawExit status => if a.exit.or a.leaderExit = some status then some a else none

def of (log : List StopObs) : Option StopAccount := log.foldlM next zero

lemma of_append {log obs : List StopObs} {a : StopAccount} (h : of log = some a) :
    of (log ++ obs) = obs.foldlM next a := by
  rw [of, List.foldlM_append, ← of, h]
  rfl

end StopAccount

/-! ### One group and its account -/

structure StopGroup.Agrees (G : StopGroup) (a : StopAccount) : Prop where
  report : G.stopped = true → G.groupExitCode ≠ 0 →
    ∃ sig, a.report = some sig ∧ G.groupExitCode = stopStatus sig
  contReport : G.continued = true → a.contReport = true
  owes : a.owes = true → G.stopped = true ∧ G.pass G.leader = some false
  exit : G.doingGroupExit = true → G.stopped = false ∧ a.exit = some G.groupExitCode
  noExit : G.doingGroupExit = false → a.exit = none
  leaderExit : G.leader ∉ G.threads → G.doingGroupExit = true ∨ a.leaderExit = some G.exitCode
  zombie : G.zombie = true → G.threads = []
  dying : ∀ t, (G.dying t).isSome = true → G.doingGroupExit = true ∧ G.pass t = none

def StopGroup.Telling (G : StopGroup) : Prop := G.stopped = true ∧ G.pass G.leader = some false

/-- The leader takes the stop signals, in a `receive_signals` that found the group running, when it
neither exits nor has an unreported continuation; and nothing ends the stop before the parent has
been told. -/
def StopGroup.Cond (G : StopGroup) : StopEvent → Prop
  | .take t sig byDefault => byDefault = true → isStopSignal sig = true →
      t = G.leader ∧ G.pass t = some false ∧ G.stopped = false ∧ G.doingGroupExit = false ∧
        G.continued = false
  | .send _ sig => sig = sigcont ∨ sig = sigkill → ¬ G.Telling
  | .exitGroup _ _ => ¬ G.Telling
  | _ => True

namespace StopGroup

variable {G : StopGroup} {a : StopAccount}

lemma agrees_newThread (h : G.Agrees a) (new : ℕ) :
    ∃ a', (G.newThread new).2.foldlM StopAccount.next a = some a' ∧ (G.newThread new).1.Agrees a' := by
  refine ⟨a, ?_⟩
  unfold newThread
  split_ifs with hnew
  · obtain ⟨hne, hmem, hlead⟩ := hnew
    refine ⟨rfl, h.report, h.contReport, ?_, h.exit, h.noExit, ?_, ?_, ?_⟩
    · intro howes
      refine ⟨(h.owes howes).1, ?_⟩
      simp only [update_of_ne (Ne.symm hlead)]
      exact (h.owes howes).2
    · exact fun hl => h.leaderExit fun hl' => hl (List.mem_cons_of_mem _ hl')
    · exact fun hz => absurd (h.zombie hz) hne
    · intro t ht
      by_cases heq : t = new
      · simp [heq] at ht
      · simp only [update_of_ne heq] at ht ⊢
        exact h.dying t ht
  · exact ⟨rfl, h⟩

lemma agrees_send (h : G.Agrees a) (t sig : ℕ) (hcond : G.Cond (.send t sig)) :
    ∃ a', (G.send t sig).2.foldlM StopAccount.next a = some a' ∧ (G.send t sig).1.Agrees a' := by
  unfold send
  by_cases ht : t ∉ G.threads
  · rw [if_pos ht]
    exact ⟨a, rfl, h⟩
  · rw [if_neg ht]
    simp only
    by_cases hsig : sig = sigcont ∨ sig = sigkill
    · rw [if_pos hsig]
      have howes : a.owes = false := by
        by_contra howes
        exact hcond hsig (h.owes (by simpa using howes))
      by_cases hstop : G.stopped = true
      · by_cases hcont : sig = sigcont
        · refine ⟨{ a with report := none, contReport := true }, ?_, ?_⟩
          · simp [hstop, hcont, StopAccount.next, howes]
          · exact ⟨nofun, fun _ => rfl, fun ho => absurd (howes.symm.trans ho) nofun,
              fun hd => ⟨rfl, (h.exit hd).2⟩, h.noExit, h.leaderExit, h.zombie, h.dying⟩
        · refine ⟨{ a with report := none }, ?_, ?_⟩
          · simp [hstop, hcont, StopAccount.next, howes]
          · refine ⟨nofun, fun hc => h.contReport (by simpa [hcont] using hc),
              fun ho => absurd (howes.symm.trans ho) nofun,
              fun hd => ⟨rfl, (h.exit hd).2⟩, h.noExit, h.leaderExit, h.zombie, h.dying⟩
      · refine ⟨a, by simp [hstop], nofun, fun hc => h.contReport (by simpa [hstop] using hc),
          fun ho => absurd (howes.symm.trans ho) nofun, fun hd => ⟨rfl, (h.exit hd).2⟩, h.noExit,
          h.leaderExit, h.zombie, h.dying⟩
    · rw [if_neg hsig]
      exact ⟨a, rfl, h.report, h.contReport, h.owes, h.exit, h.noExit, h.leaderExit, h.zombie,
        h.dying⟩

lemma agrees_passBegin (h : G.Agrees a) (t : ℕ) :
    ∃ a', (G.passBegin t).2.foldlM StopAccount.next a = some a' ∧ (G.passBegin t).1.Agrees a' := by
  refine ⟨a, ?_⟩
  unfold passBegin
  split_ifs with ht
  · obtain ⟨hmem, hpass, hdying⟩ := ht
    refine ⟨rfl, h.report, h.contReport, ?_, h.exit, h.noExit, h.leaderExit, h.zombie, ?_⟩
    · intro howes
      refine ⟨(h.owes howes).1, ?_⟩
      have hne : G.leader ≠ t := by
        rintro rfl
        rw [(h.owes howes).2] at hpass
        cases hpass
      simp only [update_of_ne hne]
      exact (h.owes howes).2
    · intro u hu
      have hne : u ≠ t := by
        rintro rfl
        rw [Option.isNone_iff_eq_none.1 hdying] at hu
        cases hu
      simp only [update_of_ne hne]
      exact h.dying u hu
  · exact ⟨rfl, h⟩

lemma agrees_take (h : G.Agrees a) (t sig : ℕ) (byDefault : Bool)
    (hcond : G.Cond (.take t sig byDefault)) :
    ∃ a', (G.take t sig byDefault).2.foldlM StopAccount.next a = some a' ∧
      (G.take t sig byDefault).1.Agrees a' := by
  unfold take
  by_cases ht : t ∈ G.threads ∧ (G.pass t).isSome = true ∧ sig ∈ G.pending t
  · rw [if_pos ht]
    simp only
    by_cases hstop : byDefault = true ∧ isStopSignal sig = true
    · obtain ⟨rfl, hpass, hrun, hexit, hcont⟩ := hcond hstop.1 hstop.2
      have howes : a.owes = false := by
        by_contra howes
        have hstopped := (h.owes (by simpa using howes)).1
        rw [hrun] at hstopped
        cases hstopped
      rw [if_pos hstop]
      refine ⟨{ a with report := some sig, contReport := false, owes := true }, ?_, ?_⟩
      · simp [hrun, StopAccount.next, howes]
      · refine ⟨fun _ _ => ⟨sig, rfl, rfl⟩, fun hc => absurd (hcont.symm.trans hc) nofun,
          fun _ => ⟨rfl, hpass⟩, fun hd => absurd (hexit.symm.trans hd) nofun, h.noExit,
          h.leaderExit, h.zombie, h.dying⟩
    · rw [if_neg hstop]
      exact ⟨a, rfl, h.report, h.contReport, h.owes, h.exit, h.noExit, h.leaderExit, h.zombie,
        h.dying⟩
  · rw [if_neg ht]
    exact ⟨a, rfl, h⟩

lemma agrees_passEnd (h : G.Agrees a) (t : ℕ) :
    ∃ a', (G.passEnd t).2.foldlM StopAccount.next a = some a' ∧ (G.passEnd t).1.Agrees a' := by
  unfold passEnd
  by_cases ht : t ∈ G.threads
  · rw [if_pos ht]
    cases hpass : G.pass t with
    | none => exact ⟨a, rfl, h⟩
    | some wasStopped =>
      simp only
      have hdying (u : ℕ) (hu : (G.dying u).isSome = true) :
          G.doingGroupExit = true ∧ update G.pass t none u = none := by
        refine ⟨(h.dying u hu).1, ?_⟩
        by_cases heq : u = t
        · rw [heq, update_self]
        · rw [update_of_ne heq]
          exact (h.dying u hu).2
      by_cases hnotify : ¬ wasStopped = true ∧ G.stopped = true ∧ t = G.leader
      · rw [if_pos hnotify]
        exact ⟨{ a with owes := false }, rfl, h.report, h.contReport, nofun, h.exit, h.noExit,
          h.leaderExit, h.zombie, hdying⟩
      · rw [if_neg hnotify]
        refine ⟨a, rfl, h.report, h.contReport, fun howes => ?_, h.exit, h.noExit, h.leaderExit,
          h.zombie, hdying⟩
        obtain ⟨hstopped, hleader⟩ := h.owes howes
        refine ⟨hstopped, ?_⟩
        have hne : G.leader ≠ t := by
          rintro rfl
          rw [hleader] at hpass
          obtain rfl := Option.some.inj hpass
          exact hnotify ⟨nofun, hstopped, rfl⟩
        simp only [update_of_ne hne]
        exact hleader
  · rw [if_neg ht]
    exact ⟨a, rfl, h⟩

lemma agrees_exitGroup (h : G.Agrees a) (t status : ℕ) (hcond : ¬ G.Telling) :
    ∃ a', (G.exitGroup t status).2.foldlM StopAccount.next a = some a' ∧
      (G.exitGroup t status).1.Agrees a' := by
  unfold exitGroup
  by_cases ht : t ∈ G.threads ∧ (G.dying t).isNone = true
  · rw [if_pos ht]
    simp only
    have howes : a.owes = false := by
      by_contra howes
      exact hcond (h.owes (by simpa using howes))
    have hdying (u : ℕ) (v : Option ℕ) (hu : (update G.dying t v u).isSome = true) :
        true = true ∧ update G.pass t none u = none := by
      refine ⟨rfl, ?_⟩
      by_cases heq : u = t
      · rw [heq, update_self]
      · rw [update_of_ne heq] at hu ⊢
        exact (h.dying u hu).2
    by_cases hdoing : G.doingGroupExit = true
    · obtain ⟨hrun, hexit⟩ := h.exit hdoing
      refine ⟨a, by simp [hrun, hdoing], nofun, h.contReport,
        fun ho => absurd (howes.symm.trans ho) nofun, fun _ => ⟨rfl, ?_⟩, nofun,
        fun _ => .inl rfl, h.zombie, fun u => hdying u _⟩
      simp [hdoing, hexit]
    · refine ⟨{ a with
        report := if G.stopped then none else a.report, exit := some status }, ?_, nofun,
        h.contReport, fun ho => absurd (howes.symm.trans ho) nofun, fun _ => ⟨rfl, ?_⟩, nofun,
        fun _ => .inl rfl, h.zombie, fun u => hdying u _⟩
      · cases hstop : G.stopped <;> simp [hdoing, StopAccount.next, howes]
      · simp [hdoing]
  · rw [if_neg ht]
    exact ⟨a, rfl, h⟩

lemma agrees_valve (h : G.Agrees a) (t : ℕ) :
    ∃ a', (G.valve t).2.foldlM StopAccount.next a = some a' ∧ (G.valve t).1.Agrees a' := by
  refine ⟨a, ?_⟩
  unfold valve
  split_ifs with ht
  · refine ⟨rfl, h.report, h.contReport, h.owes, h.exit, h.noExit,
      fun _ => .inl (h.dying t ht.2).1, fun hz => ?_, h.dying⟩
    rw [h.zombie hz] at ht
    cases ht.1
  · exact ⟨rfl, h⟩

lemma agrees_exit (h : G.Agrees a) (t status : ℕ) (autoReap : Bool) :
    ∃ a', (G.exit t status autoReap).2.foldlM StopAccount.next a = some a' ∧
      (G.exit t status autoReap).1.Agrees a' := by
  unfold exit
  by_cases ht : t ∈ G.threads ∧ (G.dying t = some status ∨ G.dying t = none ∧ G.pass t = none)
  · rw [if_pos ht]
    simp only
    by_cases hlead : t = G.leader
    · subst hlead
      refine ⟨{ a with leaderExit := some status }, by simp [StopAccount.next], h.report,
        h.contReport, h.owes, h.exit, h.noExit, fun _ => .inr ?_, fun hz => by simpa using hz,
        h.dying⟩
      simp
    · refine ⟨a, by simp [hlead], h.report, h.contReport, h.owes, h.exit, h.noExit, fun hl => ?_,
        fun hz => by simpa using hz, h.dying⟩
      simp only [hlead, if_false]
      exact h.leaderExit fun hmem => hl ((List.mem_erase_of_ne (Ne.symm hlead)).2 hmem)
  · rw [if_neg ht]
    exact ⟨a, rfl, h⟩

lemma agrees_wait (h : G.Agrees a) (options : WaitOptions) :
    ∃ a', (G.wait options).2.foldlM StopAccount.next a = some a' ∧ (G.wait options).1.Agrees a' := by
  unfold wait
  by_cases hreaped : G.reaped = true
  · rw [if_pos hreaped]
    exact ⟨a, rfl, h⟩
  · rw [if_neg hreaped]
    by_cases hstop : hasOption options wuntraced = true ∧ G.stopped = true ∧ G.groupExitCode ≠ 0
    · rw [if_pos hstop]
      obtain ⟨-, hstopped, hcode⟩ := hstop
      obtain ⟨sig, hsig, heq⟩ := h.report hstopped hcode
      have hnot (hd : G.doingGroupExit = true) : False := by
        rw [(h.exit hd).1] at hstopped
        cases hstopped
      cases hnowait : hasOption options wnowait with
      | false =>
        refine ⟨{ a with report := none }, by simp [StopAccount.next, hsig, heq],
          fun _ hne => absurd rfl hne, h.contReport, h.owes, fun hd => (hnot hd).elim, h.noExit,
          h.leaderExit, h.zombie, h.dying⟩
      | true =>
        refine ⟨a, ?_, h⟩
        have hnext : a.next (.sawStop (stopStatus sig) false) = some a := by
          simp [StopAccount.next, hsig]
          rw [← hsig]
        simp only [heq, Bool.not_true, List.foldlM_cons, List.foldlM_nil, hnext]
        rfl
    · rw [if_neg hstop]
      by_cases hcont : hasOption options wcontinued = true ∧ G.continued = true
      · rw [if_pos hcont]
        have hdue := h.contReport hcont.2
        refine ⟨{ a with contReport := hasOption options wnowait },
          by simp [StopAccount.next, hdue], h.report, fun hc => hc, h.owes, h.exit, h.noExit,
          h.leaderExit, h.zombie, h.dying⟩
      · rw [if_neg hcont]
        by_cases hexit : hasOption options wexited = true ∧ G.zombie = true
        · rw [if_pos hexit]
          refine ⟨a, ?_, h.report, h.contReport, h.owes, h.exit, h.noExit, h.leaderExit, h.zombie,
            h.dying⟩
          have hleader : G.leader ∉ G.threads := by
            rw [h.zombie hexit.2]
            exact List.not_mem_nil
          cases hdoing : G.doingGroupExit with
          | true => simp [StopAccount.next, (h.exit hdoing).2]
          | false =>
            have hcode := (h.leaderExit hleader).resolve_left (by simp [hdoing])
            simp [StopAccount.next, h.noExit hdoing, hcode]
        · rw [if_neg hexit]
          exact ⟨a, rfl, h⟩

lemma agrees_step (h : G.Agrees a) {e : StopEvent} (hcond : G.Cond e) :
    ∃ a', (G.step e).2.foldlM StopAccount.next a = some a' ∧ (G.step e).1.Agrees a' := by
  cases e with
  | newThread new => exact agrees_newThread h new
  | send t sig => exact agrees_send h t sig hcond
  | passBegin t => exact agrees_passBegin h t
  | take t sig byDefault => exact agrees_take h t sig byDefault hcond
  | passEnd t => exact agrees_passEnd h t
  | exitGroup t status => exact agrees_exitGroup h t status hcond
  | valve t => exact agrees_valve h t
  | exit t status autoReap => exact agrees_exit h t status autoReap
  | wait options => exact agrees_wait h options

lemma agrees_copy (hrun : G.stopped = false) (hcont : G.continued = false) (child : ℕ) :
    (G.copy child).Agrees .zero where
  report hs := absurd (hrun.symm.trans hs) nofun
  contReport hc := absurd (hcont.symm.trans hc) nofun
  owes := nofun
  exit := nofun
  noExit _ := rfl
  leaderExit hl := absurd List.mem_cons_self hl
  zombie := nofun
  dying := nofun

lemma agrees_fresh (leader : ℕ) : (freshGroup leader).Agrees .zero := by
  have hcopy : (freshGroup leader).copy leader = freshGroup leader := rfl
  rw [← hcopy]
  exact agrees_copy rfl rfl leader

end StopGroup

/-! ### Runs -/

namespace StopWorld

def Cond (w : StopWorld) : StopWorldEvent → Prop
  | .group g e => ∀ G, w.group g = some G → G.Cond e
  | .fork g _ _ => ∀ G, w.group g = some G → G.stopped = false ∧ G.continued = false

/-- Everything that has been reported of the group was due; and where the parent has not been told
of a stop, the leader is still in the `receive_signals` that will tell it. -/
structure Observed (w : StopWorld) (g : ℕ) : Prop where
  due : ∃ a, StopAccount.of (w.log g) = some a
  told : ∀ a, StopAccount.of (w.log g) = some a → a.owes = true →
    ∃ G, w.group g = some G ∧ G.Telling

def Inv (w : StopWorld) : Prop :=
  (∀ g G, w.group g = some G → ∃ a, StopAccount.of (w.log g) = some a ∧ G.Agrees a) ∧
    ∀ g, w.group g = none → w.log g = []

variable {w : StopWorld}

lemma inv_stopStep {e : StopWorldEvent} (hcond : w.Cond e) (h : w.Inv) : (stopStep w e).Inv := by
  obtain ⟨hagrees, hempty⟩ := h
  cases e with
  | group g e =>
    simp only [stopStep]
    cases hG : w.group g with
    | none => exact ⟨hagrees, hempty⟩
    | some G =>
      obtain ⟨a, ha, hGa⟩ := hagrees g G hG
      obtain ⟨a', ha', hGa'⟩ := StopGroup.agrees_step hGa (hcond G hG)
      refine ⟨fun g' G' hG' => ?_, fun g' hg' => ?_⟩
      · by_cases heq : g' = g
        · rw [heq] at hG' ⊢
          simp only [update_self, Option.some.injEq] at hG' ⊢
          exact ⟨a', (StopAccount.of_append ha).trans ha', hG' ▸ hGa'⟩
        · simp only [update_of_ne heq] at hG' ⊢
          exact hagrees g' G' hG'
      · by_cases heq : g' = g
        · rw [heq] at hg'
          simp at hg'
        · simp only [update_of_ne heq] at hg' ⊢
          exact hempty g' hg'
  | fork g t child =>
    simp only [stopStep]
    cases hG : w.group g with
    | none => exact ⟨hagrees, hempty⟩
    | some G =>
      simp only
      split_ifs with hc
      · obtain ⟨hrun, hcont⟩ := hcond G hG
        refine ⟨fun g' G' hG' => ?_, fun g' hg' => ?_⟩
        · by_cases heq : g' = child
          · rw [heq] at hG' ⊢
            simp only [update_self, Option.some.injEq] at hG' ⊢
            rw [hempty child (Option.isNone_iff_eq_none.1 hc.2)]
            exact ⟨.zero, rfl, hG' ▸ StopGroup.agrees_copy hrun hcont child⟩
          · simp only [update_of_ne heq] at hG' ⊢
            exact hagrees g' G' hG'
        · by_cases heq : g' = child
          · rw [heq] at hg'
            simp at hg'
          · simp only [update_of_ne heq] at hg' ⊢
            exact hempty g' hg'
      · exact ⟨hagrees, hempty⟩

lemma inv_initStop : initStop.Inv := by
  refine ⟨fun g G hG => ?_, fun g _ => rfl⟩
  refine ⟨.zero, rfl, ?_⟩
  change update (fun _ => none) 1 (some (freshGroup 1)) g = some G at hG
  by_cases heq : g = 1
  · rw [heq, update_self] at hG
    exact Option.some.inj hG ▸ StopGroup.agrees_fresh 1
  · rw [update_of_ne heq] at hG
    cases hG

lemma Inv.observed (h : w.Inv) (g : ℕ) : w.Observed g := by
  cases hG : w.group g with
  | none =>
    refine ⟨⟨.zero, by rw [h.2 g hG]; rfl⟩, fun a ha howes => ?_⟩
    rw [h.2 g hG] at ha
    obtain rfl := Option.some.inj ha
    cases howes
  | some G =>
    obtain ⟨a, ha, hGa⟩ := h.1 g G hG
    refine ⟨⟨a, ha⟩, fun a' ha' howes => ?_⟩
    obtain rfl := Option.some.inj (ha.symm.trans ha')
    exact ⟨G, hG, hGa.owes howes⟩

end StopWorld

/-- **Stop and continue events**: where the leader takes the stop signals, undisturbed until it has
told its parent, when the group neither exits nor has an unreported continuation, and no group with
an event is copied, each event is told and reported exactly. -/
theorem stop_events_observed {es : List StopWorldEvent}
    (hes : RunAll stopStep StopWorld.Cond initStop es) (g : ℕ) :
    (run stopStep initStop es).Observed g :=
  (run_invariant (fun _ _ hcond h => StopWorld.inv_stopStep hcond h) hes
    StopWorld.inv_initStop).observed g

/-- A child is stopped, waited for, and continued. -/
theorem stop_events_observed_child : (run stopStep initStop
    [.fork 1 1 2, .group 2 (.send 2 19), .group 2 (.passBegin 2), .group 2 (.take 2 19 true),
      .group 2 (.passEnd 2), .group 2 (.wait wuntraced), .group 2 (.send 2 sigcont),
      .group 2 (.wait wcontinued)]).Observed 2 := by
  apply stop_events_observed
  refine ⟨?_, ?_, fun _ _ => trivial, ?_, fun _ _ => trivial, fun _ _ => trivial, ?_,
    fun _ _ => trivial, trivial⟩
  · intro G hG
    obtain rfl := Option.some.inj hG
    exact ⟨rfl, rfl⟩
  · intro G hG hsig
    exact absurd hsig (by decide)
  · intro G hG _ _
    obtain rfl := Option.some.inj hG
    exact ⟨rfl, rfl, rfl, rfl, rfl⟩
  · intro G hG _ htelling
    obtain rfl := Option.some.inj hG
    exact absurd htelling.2 (by decide)

def runFirst (es : List StopEvent) : StopWorld := run stopStep initStop (es.map (.group 1))

def stopAndContinue : List StopEvent :=
  [.send 1 19, .passBegin 1, .take 1 19 true, .passEnd 1, .send 1 sigcont]

/-- Another thread than the leader takes the stop signal, and the parent is not told; a continuation
is reported behind the next stop, and for a child that has just been forked; a stop is reported
twice; and the status of an exit is that of a stop. -/
theorem stop_events_unobserved :
    ¬ (runFirst [.newThread 5, .send 5 19, .passBegin 5, .take 5 19 true,
        .passEnd 5]).Observed 1 ∧
      ¬ (runFirst (stopAndContinue ++ [.send 1 19, .passBegin 1, .take 1 19 true, .passEnd 1,
        .wait wcontinued])).Observed 1 ∧
      ¬ (run stopStep (runFirst stopAndContinue)
        [.fork 1 1 2, .group 2 (.wait wcontinued)]).Observed 2 ∧
      ¬ (runFirst [.newThread 5, .send 1 19, .send 5 19, .passBegin 1, .passBegin 5,
        .take 1 19 true, .passEnd 1, .wait wuntraced, .take 5 19 true,
        .wait wuntraced]).Observed 1 ∧
      ¬ (runFirst [.newThread 5, .send 5 19, .passBegin 5, .exitGroup 1 0x500, .take 5 19 true,
        .exitGroup 5 9, .exit 5 0x137f false, .exit 1 0x500 false, .wait wexited]).Observed 1 := by
  have hdue {w : StopWorld} {g : ℕ} (h : StopAccount.of (w.log g) = none) : ¬ w.Observed g := by
    intro hobs
    obtain ⟨a, ha⟩ := hobs.due
    rw [h] at ha
    cases ha
  refine ⟨fun hobs => ?_, hdue (by decide), hdue (by decide), hdue (by decide), hdue (by decide)⟩
  obtain ⟨G, hG, htelling⟩ := hobs.told ⟨some 19, false, true, none, none⟩ (by decide) rfl
  obtain rfl := Option.some.inj hG
  exact absurd htelling.2 (by decide)

end ShellBox
