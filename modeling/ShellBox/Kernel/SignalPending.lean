import ShellBox.Kernel.Signal
import ShellBox.Logic.Loop

/-!
# Pending signals are queued signals

A signal is in the pending set exactly when the queue has an entry of it. Senders keep this, and so
does a whole walk of `receive_signals`, which takes all entries of a signal or none. It fails in
two places: `sigtimedwait` takes an entry and leaves the set alone, and a traced task that
reports one of several entries of a real-time signal has cleared the bit for all of them.
-/

namespace ShellBox

namespace SignalTask

def Consistent (t : SignalTask) : Prop := ∀ sig, sig ∈ t.pending ↔ sig ∈ t.entries

/-- A suspended walk that has entries left has passed only blocked ones. -/
def WalkOk (t : SignalTask) : Prop :=
  ∀ w, t.walk = some w → w.todo ≠ [] → ∀ sig ∈ t.queue, sig ∈ w.blocked

/-- The signal a traced task would report next has no other entry in the queue. -/
def ReportsLast (t : SignalTask) (blocked : SigSet) (todo : List ℕ) : Prop :=
  t.traced → ∀ sig, todo.find? (· ∉ blocked) = some sig → sig ≠ sigkill → todo.count sig = 1

/-- A traced task reports only the last entry of a signal, and so does `sigtimedwait` take only
an entry that is not the last one. -/
def Admits (t : SignalTask) : SignalAct → Prop
  | .receive => t.ReportsLast t.passMask t.queue
  | .resume => ∀ w, t.walk = some w → t.ReportsLast w.blocked w.todo
  | .waitEnd set timedOut => timedOut = false →
      ∀ sig, t.queue.find? (· ∈ set) = some sig → sig ∈ t.queue.erase sig
  | _ => True

structure Inv (t : SignalTask) : Prop where
  consistent : t.exited = false → t.Consistent
  walk : t.exited = false → t.WalkOk

/-! ### Sending -/

lemma entries_enqueue (t : SignalTask) (sig s : ℕ) :
    s ∈ (t.enqueue sig).entries ↔ s = sig ∨ s ∈ t.entries := by
  unfold enqueue
  split
  · rename_i w
    simp [entries, w]
    tauto
  · rename_i hw
    cases h : t.walk with
    | none => simp [entries, h]; tauto
    | some w =>
      cases hd : w.todo with
      | nil => simp [entries, h, hd]; tauto
      | cons n r => exact absurd (by rw [h, ← hd]) (hw w.blocked n r)

@[simp] lemma enqueue_pending (t : SignalTask) (sig : ℕ) : (t.enqueue sig).pending = t.pending := by
  unfold enqueue
  split <;> rfl

@[simp] lemma enqueue_exited (t : SignalTask) (sig : ℕ) : (t.enqueue sig).exited = t.exited := by
  unfold enqueue
  split <;> rfl

lemma Consistent.enqueue {t : SignalTask} (h : t.Consistent) (sig : ℕ) :
    ({ t with pending := insert sig t.pending }.enqueue sig).Consistent := by
  intro s
  rw [enqueue_pending, entries_enqueue, Finset.mem_insert]
  exact or_congr_right (h s)

lemma Consistent.deliver {t : SignalTask} (h : t.Consistent) (sig : ℕ) :
    (t.deliverSignalUnlocked sig).Consistent := by
  unfold deliverSignalUnlocked
  split_ifs
  · exact h
  · exact h.enqueue sig

lemma WalkOk.enqueue {t : SignalTask} (h : t.WalkOk) (sig : ℕ) : (t.enqueue sig).WalkOk := by
  unfold SignalTask.enqueue
  split
  · rename_i b next rest hw
    intro w hw' _ s hs
    obtain rfl : SignalWalk.mk b (next :: rest ++ [sig]) = w := Option.some.inj hw'
    exact h _ hw (by simp) s hs
  · rename_i hw
    intro w hw' hne
    cases hd : w.todo with
    | nil => exact absurd hd hne
    | cons n r => exact absurd (hw'.trans (by rw [← hd])) (hw w.blocked n r)

lemma WalkOk.deliver {t : SignalTask} (h : t.WalkOk) (sig : ℕ) :
    (t.deliverSignalUnlocked sig).WalkOk := by
  unfold deliverSignalUnlocked
  split_ifs
  · exact h
  · exact WalkOk.enqueue (t := { t with pending := insert sig t.pending }) h sig

/-! ### The walk of `receive_signals` -/

@[simp] lemma restartSyscall_queue (t : SignalTask) (sig : ℕ) :
    (t.restartSyscall sig).queue = t.queue := by
  unfold restartSyscall
  split
  · split_ifs <;> rfl
  · rfl

structure Received (t t' : SignalTask) : Prop where
  pending : t'.pending = t.pending
  traced : t'.traced = t.traced
  walk : t'.walk = t.walk
  queue : t'.exited = false → t'.queue = t.queue

lemma Received.restart (t : SignalTask) (sig : ℕ) : t.Received (t.restartSyscall sig) := by
  unfold restartSyscall
  split
  · split_ifs <;> exact ⟨rfl, rfl, rfl, fun _ => rfl⟩
  · exact ⟨rfl, rfl, rfl, fun _ => rfl⟩

lemma receiveSignal_received {h : SignalHost} {t t' : SignalTask} {sig : ℕ}
    (hr : t.receiveSignal h sig = some t') : t.Received t' := by
  unfold receiveSignal at hr
  split at hr
  · cases hr
    exact ⟨rfl, rfl, rfl, fun _ => rfl⟩
  · cases hr
    exact ⟨rfl, rfl, rfl, fun _ => rfl⟩
  · cases hr
    exact ⟨rfl, rfl, rfl, fun h => by cases h⟩
  · simp only [pushHandler] at hr
    split_ifs at hr
    cases hr
    have hs := Received.restart t sig
    exact ⟨hs.pending, hs.traced, hs.walk, fun _ => restartSyscall_queue t sig⟩

/-- What holds while a walk of an untraced task has `todo` before it: the entries it will take
may have lost their pending bit. -/
structure Walking (blocked : SigSet) (todo : List ℕ) (t : SignalTask) : Prop where
  passed : todo ≠ [] → ∀ s ∈ t.queue, s ∈ blocked
  queued : ∀ s ∈ t.pending, s ∈ t.queue ++ todo
  kept : ∀ s ∈ t.queue, s ∈ t.pending
  stays : ∀ s ∈ todo, s ∈ blocked → s ∈ t.pending

variable {h : SignalHost} {blocked : SigSet} {sig : ℕ} {rest todo : List ℕ} {t t' : SignalTask}

lemma Walking.skip (hw : Walking blocked (sig :: rest) t) (hs : sig ∈ blocked) :
    Walking blocked rest { t with queue := t.queue ++ [sig] } := by
  constructor
  · intro _ s hs'
    rcases List.mem_append.1 hs' with hs' | hs'
    · exact hw.passed (by simp) s hs'
    · rw [List.mem_singleton.1 hs']
      exact hs
  · intro s hs'
    simpa using hw.queued s hs'
  · intro s hs'
    rcases List.mem_append.1 hs' with hs' | hs'
    · exact hw.kept s hs'
    · rw [List.mem_singleton.1 hs']
      exact hw.stays sig (by simp) hs
  · intro s hs' hb
    exact hw.stays s (by simp [hs']) hb

lemma Walking.take (hw : Walking blocked (sig :: rest) t) (hs : sig ∉ blocked)
    (hp : t'.pending = t.pending.erase sig) (hq : t'.queue = t.queue) :
    Walking blocked rest t' := by
  have hne : ∀ s ∈ blocked, s ≠ sig := fun s hb h => hs (h ▸ hb)
  constructor
  · intro _
    rw [hq]
    exact hw.passed (by simp)
  · intro s hs'
    rw [hp, Finset.mem_erase] at hs'
    have hmem := hw.queued s hs'.2
    rw [hq]
    simpa [hs'.1] using hmem
  · intro s hs'
    rw [hq] at hs'
    rw [hp, Finset.mem_erase]
    exact ⟨hne s (hw.passed (by simp) s hs'), hw.kept s hs'⟩
  · intro s hs' hb
    rw [hp, Finset.mem_erase]
    exact ⟨hne s hb, hw.stays s (by simp [hs']) hb⟩

lemma Walking.consistent (hw : Walking blocked [] t) (hn : t.walk = none) : t.Consistent := by
  intro s
  rw [entries, hn]
  exact ⟨fun hs => by simpa using hw.queued s hs, fun hs => hw.kept s (by simpa using hs)⟩

lemma receiveLoop_untraced (hr : receiveLoop h blocked todo t = some t') (ht : t.traced = false)
    (hn : t.walk = none) (hw : Walking blocked todo t) (hx : t'.exited = false) :
    t'.Consistent ∧ t'.walk = none := by
  induction todo generalizing t with
  | nil =>
    obtain rfl : t = t' := Option.some.inj hr
    exact ⟨hw.consistent hn, hn⟩
  | cons sig rest ih =>
    rw [receiveLoop] at hr
    split_ifs at hr with hs htr
    · exact ih hr ht hn (hw.skip hs)
    · rw [ht] at htr
      cases htr.1
    · obtain ⟨t₁, ht₁, hr⟩ := Option.bind_eq_some_iff.1 hr
      have hrec := receiveSignal_received ht₁
      split_ifs at hr with he
      · obtain rfl : t₁ = t' := Option.some.inj hr
        rw [he] at hx
        cases hx
      · exact ih hr (hrec.traced.trans ht) (hrec.walk.trans hn)
          (hw.take hs hrec.pending (hrec.queue (Bool.eq_false_iff.2 he)))

lemma receiveLoop_traced (hr : receiveLoop h blocked todo t = some t') (ht : t.traced = true)
    (hn : t.walk = none) (hc : ∀ s, s ∈ t.pending ↔ s ∈ t.queue ++ todo)
    (hp : todo ≠ [] → ∀ s ∈ t.queue, s ∈ blocked)
    (hl : ∀ s, todo.find? (· ∉ blocked) = some s → s ≠ sigkill → todo.count s = 1)
    (hx : t'.exited = false) : t'.Consistent ∧ t'.WalkOk := by
  induction todo generalizing t with
  | nil =>
    obtain rfl : t = t' := Option.some.inj hr
    exact ⟨fun s => by simpa [entries, hn] using hc s, fun w hw => by simp [hn] at hw⟩
  | cons sig rest ih =>
    rw [receiveLoop] at hr
    split_ifs at hr with hs htr
    · refine ih hr ht hn (fun s => by simpa using hc s) ?_ ?_
      · intro _ s hs'
        rcases List.mem_append.1 hs' with hs' | hs'
        · exact hp (by simp) s hs'
        · rw [List.mem_singleton.1 hs']
          exact hs
      · intro s hf hk
        have hne : sig ≠ s := by
          rintro rfl
          simpa [hs] using List.find?_some hf
        have hcount := hl s (by rw [List.find?_cons_of_neg (by simpa using hs)]; exact hf) hk
        rwa [List.count_cons_of_ne hne] at hcount
    · obtain rfl := Option.some.inj hr
      have hcount := hl sig (List.find?_cons_of_pos (by simpa using hs)) htr.2
      have hrest : sig ∉ rest := by
        intro hmem
        have := List.count_pos_iff.2 hmem
        rw [List.count_cons_self] at hcount
        omega
      have hqueue : sig ∉ t.queue := fun hmem => hs (hp (by simp) sig hmem)
      refine ⟨?_, ?_⟩
      · intro s
        simp only [entries, Finset.mem_erase, hc s, List.mem_append, List.mem_cons,
          Option.map_some, Option.getD_some]
        constructor
        · rintro ⟨hne, h1 | rfl | h1⟩
          · exact Or.inl h1
          · exact absurd rfl hne
          · exact Or.inr h1
        · rintro (h1 | h1)
          · exact ⟨fun h => hqueue (h ▸ h1), Or.inl h1⟩
          · exact ⟨fun h => hrest (h ▸ h1), Or.inr (Or.inr h1)⟩
      · intro w hw _ s hs'
        obtain rfl := Option.some.inj hw
        exact hp (by simp) s hs'
    · -- the entry is `SIGKILL`, which ends the task
      obtain ⟨t₁, ht₁, hr⟩ := Option.bind_eq_some_iff.1 hr
      have hkill : sig = sigkill := by
        by_contra hk
        exact htr ⟨ht, hk⟩
      subst hkill
      obtain rfl := Option.some.inj ht₁
      obtain rfl := Option.some.inj hr
      cases hx

lemma receiveLoop_ok (hr : receiveLoop h blocked todo t = some t') (hn : t.walk = none)
    (hc : ∀ s, s ∈ t.pending ↔ s ∈ t.queue ++ todo)
    (hp : todo ≠ [] → ∀ s ∈ t.queue, s ∈ blocked) (hl : t.ReportsLast blocked todo)
    (hx : t'.exited = false) : t'.Consistent ∧ t'.WalkOk := by
  cases ht : t.traced with
  | true => exact receiveLoop_traced hr ht hn hc hp (hl ht) hx
  | false =>
    have hw : Walking blocked todo t :=
      ⟨hp, fun s hs => (hc s).1 hs, fun s hs => (hc s).2 (by simp [hs]),
        fun s hs _ => (hc s).2 (by simp [hs])⟩
    obtain ⟨hc', hn'⟩ := receiveLoop_untraced hr ht hn hw hx
    exact ⟨hc', fun w hw' => by simp [hn'] at hw'⟩

/-! ### Runs -/

lemma Inv.receive (hi : t.Inv) (ht : t.exited = false) (hn : t.walk = none)
    (hl : t.ReportsLast t.passMask t.queue) (hr : t.receiveSignals h = some t') : t'.Inv := by
  have hc : ∀ s, s ∈ t.pending ↔ s ∈ [] ++ t.queue := by
    intro s
    rw [hi.consistent ht s]
    simp [entries, hn]
  refine ⟨fun hx => ?_, fun hx => ?_⟩
  · exact (receiveLoop_ok hr hn hc (by simp) hl hx).1
  · exact (receiveLoop_ok hr hn hc (by simp) hl hx).2

lemma Inv.resume (hi : t.Inv) (ht : t.exited = false)
    (hl : ∀ w, t.walk = some w → t.ReportsLast w.blocked w.todo) (hr : t.resume h = some t') :
    t'.Inv := by
  unfold SignalTask.resume at hr
  split at hr
  · rename_i w hw
    split_ifs at hr with hk
    · obtain rfl := Option.some.inj hr
      exact ⟨fun h => (by cases h), fun h => (by cases h)⟩
    · have hc : ∀ s, s ∈ t.pending ↔ s ∈ t.queue ++ w.todo := by
        intro s
        rw [hi.consistent ht s]
        simp [entries, hw]
      have hp := hi.walk ht w hw
      refine ⟨fun hx => ?_, fun hx => ?_⟩
      · exact (receiveLoop_ok hr rfl hc hp (hl w hw) hx).1
      · exact (receiveLoop_ok hr rfl hc hp (hl w hw) hx).2
  · obtain rfl := Option.some.inj hr
    exact hi

lemma Inv.takeWaited (hi : t.Inv) (ht : t.exited = false) (hn : t.walk = none) {set : SigSet}
    (hl : ∀ sig, t.queue.find? (· ∈ set) = some sig → sig ∈ t.queue.erase sig) :
    (t.takeWaited set).Inv := by
  unfold SignalTask.takeWaited
  split
  · rename_i sig hf
    refine ⟨fun _ => ?_, fun _ w hw => by simp [hn] at hw⟩
    intro s
    have hs := hi.consistent ht s
    simp only [entries, hn, Option.map_none, Option.getD_none, List.append_nil] at hs ⊢
    rw [hs]
    by_cases hse : s = sig
    · rw [hse]
      exact ⟨fun _ => hl sig hf, List.mem_of_mem_erase⟩
    · exact (List.mem_erase_of_ne hse).symm
  · exact ⟨hi.consistent, hi.walk⟩

/-- The step lemma. -/
theorem Inv.step (hi : t.Inv) {a : SignalAct} (ha : t.Admits a) : (t.step h a).Inv := by
  unfold SignalTask.step
  split_ifs with hstop
  · exact hi
  have ht : t.exited = false := Bool.eq_false_iff.2 fun h => hstop (Or.inl h)
  have hn : a.own = true → t.walk = none := by
    intro ho
    cases hw : t.walk with
    | none => rfl
    | some w => exact absurd (Or.inr ⟨ho, by rw [hw]; rfl⟩) hstop
  have hdel : ∀ sig, (t.deliverSignalUnlocked sig).Inv := fun sig =>
    ⟨fun _ => (hi.consistent ht).deliver sig, fun _ => (hi.walk ht).deliver sig⟩
  cases a with
  | send sig =>
    show (t.sendSignal sig).Inv
    unfold sendSignal
    split_ifs
    · exact hi
    · exact hi
    · exact hdel sig
  | deliver sig => exact hdel sig
  | trySelf sig =>
    show (t.trySelfSignal sig).Inv
    unfold trySelfSignal
    split_ifs
    · exact hdel sig
    · exact hi
  | sigprocmask set => exact ⟨hi.consistent, hi.walk⟩
  | sigmaskTemp mask => exact ⟨hi.consistent, hi.walk⟩
  | sigaction sig action =>
    show (t.doSigaction sig action).Inv
    unfold doSigaction
    split_ifs
    · exact hi
    · exact ⟨hi.consistent, hi.walk⟩
  | trace traced => exact ⟨hi.consistent, hi.walk⟩
  | receive =>
    show ((t.receiveSignals h).getD t).Inv
    cases hr : t.receiveSignals h with
    | none => exact hi
    | some t' => exact hi.receive ht (hn rfl) ha hr
  | resume =>
    show ((t.resume h).getD t).Inv
    cases hr : t.resume h with
    | none => exact hi
    | some t' => exact hi.resume ht ha hr
  | waitBegin set => exact ⟨hi.consistent, hi.walk⟩
  | waitEnd set timedOut =>
    cases timedOut with
    | true => exact ⟨hi.consistent, hi.walk⟩
    | false => exact hi.takeWaited ht (hn rfl) (ha rfl)

/-- A task as `task_create_` leaves it. -/
structure Fresh (t : SignalTask) : Prop where
  pending : t.pending = ∅
  queue : t.queue = []
  walk : t.walk = none

lemma Fresh.inv (h : t.Fresh) : t.Inv :=
  ⟨fun _ sig => by simp [entries, h.pending, h.queue, h.walk],
    fun _ w hw => by simp [h.walk] at hw⟩

lemma Consistent.mem_entries_send (hc : t.Consistent) (ht : t.exited = false) (h0 : sig ≠ 0)
    (ha : signalAction t.action sig ≠ .ignore) : sig ∈ (t.sendSignal sig).entries := by
  have hdel : sig ∈ (t.deliverSignalUnlocked sig).pending := by
    unfold deliverSignalUnlocked
    split_ifs with hp
    · exact hp.2
    · simp
  unfold sendSignal
  rw [if_neg (by simp [h0, ht]), if_neg ha]
  exact (hc.deliver sig sig).1 hdel

/-- While `sigtimedwait` takes no last entry and the tracer is told of no entry that is not the
last one, pending means queued, and every signal that is sent is in the queue. -/
theorem pending_iff_queued {t₀ : SignalTask} (h₀ : t₀.Fresh) {acts : List SignalAct}
    (hacts : RunAll (step h) Admits t₀ acts) (ht : t = run (step h) t₀ acts)
    (hx : t.exited = false) :
    (∀ sig, sig ∈ t.pending ↔ sig ∈ t.entries) ∧
      ∀ sig, sig ≠ 0 → signalAction t.action sig ≠ .ignore →
        sig ∈ (t.sendSignal sig).entries := by
  have hi : t.Inv := by
    rw [ht]
    refine run_invariant ?_ hacts h₀.inv
    intro t a ha hi
    exact hi.step ha
  have hc := hi.consistent hx
  exact ⟨hc, fun sig h0 ha => hc.mem_entries_send hx h0 ha⟩

def anyHost : SignalHost :=
  { frameSize := 4688, infoOffset := 0, ucOffset := 128, restorer := 0, writable := fun _ => true }

/-- A handler takes two entries of a real-time signal, and a third is sent. -/
def handlerRun : List SignalAct :=
  [.sigaction 34 { handler := 4096 }, .send 34, .send 34, .receive, .send 34]

theorem pending_iff_queued_handler :
    (run (step anyHost) {} handlerRun).exited = false ∧
      ∀ sig, sig ∈ (run (step anyHost) {} handlerRun).pending ↔
        sig ∈ (run (step anyHost) {} handlerRun).entries := by
  have hx : (run (step anyHost) {} handlerRun).exited = false := by decide
  have hadm : RunAll (step anyHost) Admits {} handlerRun :=
    ⟨trivial, trivial, trivial, fun ht => (by cases ht), trivial, trivial⟩
  exact ⟨hx, (pending_iff_queued ⟨rfl, rfl, rfl⟩ hadm rfl hx).1⟩

/-- `sigtimedwait` takes the only entry of a signal: it stays pending, and is not queued when it
is sent again. -/
theorem pending_not_queued :
    let t := run (step anyHost) {} [.send 10, .waitBegin {10}, .waitEnd {10} false]
    10 ∈ t.pending ∧ 10 ∉ t.entries ∧ 10 ∉ (t.sendSignal 10).entries := by
  decide

end SignalTask

end ShellBox
