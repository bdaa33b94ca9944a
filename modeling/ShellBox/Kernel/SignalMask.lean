import ShellBox.Kernel.Signal

/-!
# Handlers and the signal mask

A pass of `receive_signals` decides which signals it may deliver by the mask from before the
pass, while each handler frame it pushes extends the mask. So a handler can be stacked on top of one
that masks its signal. This happens exactly when two signals of the queue get handlers in the
pass and the earlier one masks the later one.
-/

namespace ShellBox

namespace SignalTask

/-- The signals of a queue that get a handler frame: those not blocked whose action is a handler,
up to a signal that kills the task or is reported to a tracer. -/
def handled (traced : Bool) (blocked : SigSet) : (ℕ → SigAction) → List ℕ → List ℕ
  | _, [] => []
  | action, sig :: rest =>
    if sig ∈ blocked then handled traced blocked action rest
    else if traced ∧ sig ≠ sigkill then []
    else match signalAction action sig with
      | .kill        => []
      | .callHandler => sig :: handled traced blocked (resetAction action sig) rest
      | _            => handled traced blocked action rest

def maskAfter (action : ℕ → SigAction) (mask : SigSet) (pushed : List SignalFrame) : SigSet :=
  pushed.foldl (fun m f => m ∪ maskOf action f.sig) mask

lemma mem_maskAfter {action : ℕ → SigAction} {mask : SigSet} {pushed : List SignalFrame} {s : ℕ} :
    s ∈ maskAfter action mask pushed ↔ s ∈ mask ∨ ∃ f ∈ pushed, s ∈ maskOf action f.sig := by
  unfold maskAfter
  induction pushed generalizing mask with
  | nil => simp
  | cons f rest ih => simp [ih, or_assoc]

lemma defaultAction_ne (sig : ℕ) : defaultAction sig ≠ .callHandler := by
  unfold defaultAction
  split_ifs <;> simp

lemma signalAction_dfl {action : ℕ → SigAction} {sig : ℕ} (h : (action sig).handler = sigDfl) :
    signalAction action sig ≠ .callHandler := by
  have hd : signalAction action sig = defaultAction sig := by simp [signalAction, h, sigDfl, sigIgn]
  rw [hd]
  exact defaultAction_ne sig

lemma resetAction_eq {action : ℕ → SigAction} {s sig : ℕ}
    (h : signalAction (resetAction action s) sig = .callHandler) :
    resetAction action s sig = action sig := by
  unfold resetAction at h ⊢
  split_ifs at h ⊢ with hr
  · by_cases hs : sig = s
    · refine absurd h (signalAction_dfl ?_)
      rw [hs, Function.update_self]
    · rw [Function.update_of_ne hs]
  · rfl

lemma signalAction_congr {action action' : ℕ → SigAction} {sig : ℕ} (h : action sig = action' sig) :
    signalAction action sig = signalAction action' sig := by
  simp [signalAction, h]

lemma handler_of_mem_handled {traced : Bool} {blocked : SigSet} {action : ℕ → SigAction}
    {todo : List ℕ} {sig : ℕ} (h : sig ∈ handled traced blocked action todo) :
    signalAction action sig = .callHandler ∧ sig ∉ blocked := by
  induction todo generalizing action with
  | nil => simp [handled] at h
  | cons s rest ih =>
    rw [handled] at h
    split_ifs at h with hb ht
    · exact ih h
    · cases h
    · split at h
      · cases h
      · rename_i hs
        rcases List.mem_cons.1 h with rfl | h
        · exact ⟨hs, hb⟩
        · obtain ⟨hsig, hnb⟩ := ih h
          rw [signalAction_congr (resetAction_eq hsig)] at hsig
          exact ⟨hsig, hnb⟩
      · exact ih h

lemma maskOf_resetAction {action : ℕ → SigAction} {s sig : ℕ}
    (h : signalAction (resetAction action s) sig = .callHandler) :
    maskOf (resetAction action s) sig = maskOf action sig := by
  unfold maskOf
  rw [resetAction_eq h]

structure Pushes (traced : Bool) (blocked : SigSet) (todo : List ℕ) (t t' : SignalTask)
    (new : List SignalFrame) : Prop where
  frames : t'.frames = t.frames ++ new
  sigs : new.map SignalFrame.sig = handled traced blocked t.action todo
  sigmask : ∀ before f after, new = before ++ f :: after →
    f.sigmask = maskAfter t.action t.blocked before

lemma Pushes.nil {traced : Bool} {blocked : SigSet} {todo : List ℕ} {t t' : SignalTask}
    (hf : t'.frames = t.frames) (hh : handled traced blocked t.action todo = []) :
    Pushes traced blocked todo t t' [] :=
  ⟨by simp [hf], by simp [hh], by simp⟩

lemma Pushes.congr {traced : Bool} {blocked : SigSet} {todo todo' : List ℕ}
    {t₁ t t' : SignalTask} {new : List SignalFrame} (hp : Pushes traced blocked todo t₁ t' new)
    (hf : t₁.frames = t.frames) (ha : t₁.action = t.action) (hb : t₁.blocked = t.blocked)
    (hh : handled traced blocked t.action todo' = handled traced blocked t.action todo) :
    Pushes traced blocked todo' t t' new :=
  ⟨hf ▸ hp.frames, by rw [hh, ← ha]; exact hp.sigs, by rw [← ha, ← hb]; exact hp.sigmask⟩

lemma restartSyscall_eq (t : SignalTask) (sig : ℕ) :
    (t.restartSyscall sig).frames = t.frames ∧ (t.restartSyscall sig).action = t.action ∧
      (t.restartSyscall sig).blocked = t.blocked ∧ (t.restartSyscall sig).traced = t.traced ∧
      (t.restartSyscall sig).exited = t.exited := by
  unfold restartSyscall
  split
  · split_ifs <;> exact ⟨rfl, rfl, rfl, rfl, rfl⟩
  · exact ⟨rfl, rfl, rfl, rfl, rfl⟩

lemma pushHandler_spec {h : SignalHost} {t t' : SignalTask} {sig : ℕ}
    (hr : t.pushHandler h sig = some t') :
    (∃ f : SignalFrame, f.sig = sig ∧ f.sigmask = t.blocked ∧ t'.frames = t.frames ++ [f]) ∧
      t'.blocked = t.blocked ∪ maskOf t.action sig ∧ t'.action = resetAction t.action sig ∧
      t'.traced = t.traced ∧ t'.exited = t.exited := by
  obtain ⟨hf, ha, hb, ht, hx⟩ := restartSyscall_eq t sig
  simp only [pushHandler] at hr
  split_ifs at hr
  obtain rfl := Option.some.inj hr
  refine ⟨⟨_, rfl, hb, congrArg (· ++ _) hf⟩, ?_, ?_, ht, hx⟩
  · simp only [ha, hb]
  · simp only [ha]

lemma receiveSignal_quiet {h : SignalHost} {t t' : SignalTask} {sig : ℕ}
    (hr : t.receiveSignal h sig = some t') (hs : signalAction t.action sig ≠ .callHandler) :
    t'.frames = t.frames ∧ t'.action = t.action ∧ t'.blocked = t.blocked ∧
      t'.traced = t.traced ∧ (t'.exited = true ↔ signalAction t.action sig = .kill ∨
        t.exited = true) := by
  unfold receiveSignal at hr
  split at hr
  · rename_i ha
    obtain rfl := Option.some.inj hr
    simp [ha]
  · rename_i ha
    obtain rfl := Option.some.inj hr
    simp [ha]
  · rename_i ha
    obtain rfl := Option.some.inj hr
    simp [ha]
  · rename_i ha
    exact absurd ha hs

variable {h : SignalHost} {blocked : SigSet} {sig : ℕ} {rest todo : List ℕ} {t t' t₁ : SignalTask}

lemma Pushes.cons {new : List SignalFrame} {f : SignalFrame} (hs : sig ∉ blocked)
    (htr : ¬ (t.traced = true ∧ sig ≠ sigkill)) (ha : signalAction t.action sig = .callHandler)
    (hf : t₁.frames = t.frames ++ [f]) (hfs : f.sig = sig) (hfm : f.sigmask = t.blocked)
    (hb : t₁.blocked = t.blocked ∪ maskOf t.action sig) (hact : t₁.action = resetAction t.action sig)
    (hp : Pushes t.traced blocked rest t₁ t' new) :
    Pushes t.traced blocked (sig :: rest) t t' (f :: new) := by
  constructor
  · rw [hp.frames, hf]
    simp
  · rw [handled, if_neg hs, if_neg htr, ha]
    simp only [List.map_cons, hfs, hp.sigs, hact]
  · intro before g after heq
    cases before with
    | nil =>
      obtain ⟨rfl, -⟩ := List.cons.inj heq
      exact hfm
    | cons f' before =>
      obtain ⟨rfl, hnew⟩ := List.cons.inj heq
      rw [hp.sigmask before g after hnew, maskAfter, maskAfter, List.foldl_cons, hb, hfs, hact]
      refine List.foldl_ext _ _ _ fun m k hk => ?_
      -- the frames below were pushed by actions that no handler has reset
      have hmem : k.sig ∈ handled t.traced blocked (resetAction t.action sig) rest := by
        rw [← hact, ← hp.sigs, hnew]
        exact List.mem_map_of_mem (by simp [hk])
      rw [maskOf_resetAction (handler_of_mem_handled hmem).1]

lemma handled_of_mem {traced : Bool} {action : ℕ → SigAction} (hs : sig ∈ blocked) :
    handled traced blocked action (sig :: rest) = handled traced blocked action rest := by
  rw [handled, if_pos hs]

lemma handled_of_traced {traced : Bool} {action : ℕ → SigAction} (hs : sig ∉ blocked)
    (ht : traced = true ∧ sig ≠ sigkill) : handled traced blocked action (sig :: rest) = [] := by
  rw [handled, if_neg hs, if_pos ht]

lemma handled_of_quiet {traced : Bool} {action : ℕ → SigAction} (rest : List ℕ) (hs : sig ∉ blocked)
    (ht : ¬ (traced = true ∧ sig ≠ sigkill)) (ha : signalAction action sig ≠ .callHandler) :
    handled traced blocked action (sig :: rest) =
      if signalAction action sig = .kill then [] else handled traced blocked action rest := by
  rw [handled, if_neg hs, if_neg ht]
  cases h : signalAction action sig <;> simp_all

/-- What a walk pushes. -/
theorem exists_pushes (hr : receiveLoop h blocked todo t = some t') (hx : t.exited = false) :
    ∃ new, Pushes t.traced blocked todo t t' new := by
  induction todo generalizing t with
  | nil =>
    obtain rfl : t = t' := Option.some.inj hr
    exact ⟨[], Pushes.nil rfl rfl⟩
  | cons sig rest ih =>
    rw [receiveLoop] at hr
    split_ifs at hr with hs htr
    · obtain ⟨new, hp⟩ := ih hr hx
      exact ⟨new, hp.congr rfl rfl rfl (handled_of_mem hs)⟩
    · obtain rfl := Option.some.inj hr
      exact ⟨[], Pushes.nil rfl (handled_of_traced hs htr)⟩
    · obtain ⟨t₁, ht₁, hr⟩ := Option.bind_eq_some_iff.1 hr
      by_cases ha : signalAction t.action sig = .callHandler
      · have ht₁' : pushHandler h { t with pending := t.pending.erase sig } sig = some t₁ := by
          simpa only [receiveSignal, ha] using ht₁
        obtain ⟨⟨f, hfs, hfm, hf⟩, hb, hact, htt, hxx⟩ := pushHandler_spec ht₁'
        have hx₁ : t₁.exited = false := hxx.trans hx
        rw [if_neg (by simp [hx₁])] at hr
        obtain ⟨new, hp⟩ := ih hr hx₁
        rw [htt] at hp
        exact ⟨f :: new, hp.cons hs htr ha hf hfs hfm hb hact⟩
      · obtain ⟨hf, hact, hb, htt, hkill⟩ := receiveSignal_quiet ht₁ ha
        have hh := handled_of_quiet rest hs htr ha
        by_cases hk : signalAction t.action sig = .kill
        · rw [if_pos (hkill.2 (Or.inl hk))] at hr
          obtain rfl := Option.some.inj hr
          exact ⟨[], Pushes.nil hf (by rw [hh, if_pos hk])⟩
        · have hx₁ : ¬ t₁.exited = true := fun h => (hkill.1 h).elim hk (by simp [hx])
          rw [if_neg hx₁] at hr
          obtain ⟨new, hp⟩ := ih hr (Bool.eq_false_iff.2 hx₁)
          rw [htt] at hp
          refine ⟨new, hp.congr hf hact hb ?_⟩
          rw [hh, if_neg hk]

lemma pairwise_iff_append {α : Type*} {R : α → α → Prop} {l : List α} :
    l.Pairwise R ↔ ∀ before a after, l = before ++ a :: after → ∀ b ∈ before, R b a := by
  constructor
  · rintro h before a after rfl b hb
    exact (List.pairwise_append.1 h).2.2 b hb a (by simp)
  · intro h
    induction l with
    | nil => exact List.Pairwise.nil
    | cons x l ih =>
      refine List.pairwise_cons.2 ⟨?_, ih ?_⟩
      · intro a ha
        obtain ⟨before, after, rfl⟩ := List.append_of_mem ha
        exact h (x :: before) a after rfl x (by simp)
      · rintro before a after rfl b hb
        exact h (x :: before) a after rfl b (by simp [hb])

def walkMask (t : SignalTask) : SigSet :=
  match t.walk with
  | some w => w.blocked
  | none   => t.passMask

/-- What a pass of `receive_signals` does until it ends or stops for the tracer. -/
def walkOn (h : SignalHost) (t : SignalTask) : Option SignalTask :=
  match t.walk with
  | some _ => t.resume h
  | none   => t.receiveSignals h

/-- The mask in force when a frame is pushed: that of the pass, with what the frames pushed before
it add. -/
def maskInForce (t : SignalTask) (before : List SignalFrame) : SigSet :=
  maskAfter t.action t.walkMask before

def handlers (t : SignalTask) : List ℕ :=
  match t.walk with
  | some w => if sigkill ∈ t.pending then [] else handled t.traced w.blocked t.action w.todo
  | none   => handled t.traced t.passMask t.action t.queue

lemma exists_handlers (hr : t.walkOn h = some t') (hx : t.exited = false) :
    ∃ new, t'.frames = t.frames ++ new ∧ new.map SignalFrame.sig = t.handlers ∧
      ∀ before f after, new = before ++ f :: after →
        f.sigmask = maskAfter t.action (t.savedMask.getD t.blocked) before ∨ t.walk.isSome := by
  unfold walkOn at hr
  cases hw : t.walk with
  | none =>
    rw [hw] at hr
    obtain ⟨new, hp⟩ := exists_pushes hr hx
    refine ⟨new, hp.frames, ?_, fun before f after heq => Or.inl (hp.sigmask before f after heq)⟩
    rw [hp.sigs, handlers, hw]
  | some w =>
    rw [hw] at hr
    simp only [resume, hw] at hr
    by_cases hk : sigkill ∈ t.pending
    · rw [if_pos hk] at hr
      obtain rfl := Option.some.inj hr
      exact ⟨[], by simp, by simp [handlers, hw, hk], by simp⟩
    · rw [if_neg hk] at hr
      obtain ⟨new, hp⟩ := exists_pushes hr hx
      refine ⟨new, hp.frames, ?_, fun _ _ _ _ => Or.inr rfl⟩
      rw [hp.sigs, handlers, hw]
      exact (if_neg hk).symm

lemma notMem_walkMask {s : ℕ} (hs : s ∈ t.handlers) : s ∉ t.walkMask := by
  unfold handlers at hs
  unfold walkMask
  cases hw : t.walk with
  | none =>
    rw [hw] at hs
    exact (handler_of_mem_handled hs).2
  | some w =>
    simp only [hw] at hs
    split_ifs at hs
    · cases hs
    · exact (handler_of_mem_handled hs).2

/-- No frame is pushed for a masked signal exactly when no handler of the pass masks a later
one. Without a saved mask, the mask in force is the blocked mask that the frame saves. -/
theorem handler_frames_unmasked_iff (hr : t.walkOn h = some t') (hx : t.exited = false) :
    ∃ new, t'.frames = t.frames ++ new ∧
      (t.savedMask = none → t.walk = none → ∀ before f after, new = before ++ f :: after →
        f.sigmask = t.maskInForce before) ∧
      ((∀ before f after, new = before ++ f :: after → f.sig ∉ t.maskInForce before) ↔
        t.handlers.Pairwise fun a b => b ∉ maskOf t.action a) := by
  obtain ⟨new, hf, hsigs, hmask⟩ := exists_handlers hr hx
  refine ⟨new, hf, ?_, ?_⟩
  · intro hs hw before f after heq
    rcases hmask before f after heq with hm | hm
    · rw [hm, maskInForce, walkMask, hw]
      simp only [passMask, hs, Option.getD_none]
    · simp [hw] at hm
  · rw [← hsigs, List.pairwise_map, pairwise_iff_append]
    refine forall_congr' fun before => forall_congr' fun f => forall_congr' fun after => ?_
    refine forall_congr' fun heq => ?_
    have hnot : f.sig ∉ t.walkMask := by
      apply notMem_walkMask
      rw [← hsigs, heq]
      exact List.mem_map_of_mem (by simp)
    rw [maskInForce, mem_maskAfter]
    simp [hnot]

/-- Two signals with handlers; `sa_mask` of the first one has the second one. -/
def pairAction : ℕ → SigAction :=
  Function.update (fun _ => { handler := 4096 }) 10 { handler := 8192, mask := {12} }

def maskedPair : SignalTask :=
  { pending := {10, 12}, queue := [10, 12], action := pairAction }

def orderedPair : SignalTask :=
  { pending := {10, 12}, queue := [12, 10], action := pairAction }

def flatHost : SignalHost :=
  { frameSize := 4688, infoOffset := 0, ucOffset := 128, restorer := 0, writable := fun _ => true }

/-- In the other order nothing is nested that should not be. -/
theorem handler_frames_unmasked_iff_reversed :
    ∃ t', orderedPair.walkOn flatHost = some t' ∧
      ∃ new, t'.frames = new ∧ ∀ before f after, new = before ++ f :: after →
        f.sig ∉ orderedPair.maskInForce before := by
  have hsome : (orderedPair.walkOn flatHost).isSome = true := by decide
  obtain ⟨t', ht'⟩ := Option.isSome_iff_exists.1 hsome
  obtain ⟨new, hf, -, hiff⟩ := handler_frames_unmasked_iff ht' rfl
  refine ⟨t', ht', new, hf, hiff.2 ?_⟩
  decide

/-- The handler of the second signal is pushed on top of the first, which masks it. -/
theorem handler_frame_masked :
    (maskedPair.walkOn flatHost).map
        (fun t => t.frames.map fun f => (f.sig, decide (f.sig ∈ f.sigmask))) =
      some [(10, false), (12, true)] := by
  decide

end SignalTask

end ShellBox
