import ShellBox.Kernel.Futex
import ShellBox.Logic.Queues
import ShellBox.Logic.Slots

/-!
# Wakes that are counted

A waiter that a waker has counted finds a byte in its pipe at its next poll and returns success.
It does so unless it decides to give up in the meantime, or has already decided when the waker
takes it off the queue.
-/

namespace ShellBox

namespace FutexWorld

open Function

def WakeOk (w : FutexWorld) (key : FutexKey) (wakeMax : ℕ) : Prop :=
  ∀ t ∈ (w.queue key).take wakeMax, ∀ x, w.wait t = some x → x.phase.givenUp = false

/-- No waker takes a waiter that has given up, and a waiter gives up only while it is queued. -/
def Admits (w : FutexWorld) : FutexAct → Prop
  | .proceed t o => ∀ x, w.wait t = some x → x.phase.decided = false →
      (x.check (w.pipe t) (w.mem x.uaddr) o).phase.givenUp = true → t ∈ w.queue x.futex
  | .wake key wakeMax => w.WakeOk key wakeMax
  | .requeue key wakeMax _ _ expected =>
      (∀ val, expected = some val → w.mem key = some val) → w.WakeOk key wakeMax
  | .wakeOpEnd t => ∀ op, w.op t = some op → w.WakeOk op.uaddr op.wakeMax1 ∧
      (op.cmpTrue = true →
        (futexWakeQueue op.uaddr op.wakeMax1 w).1.WakeOk op.uaddr2 op.wakeMax2)
  | _ => True

def reported (w : FutexWorld) : ℕ := (w.replies.map FutexReply.woken).sum

/-- The invariant, while a waker has counted `n` waits that it has not reported yet. -/
structure Inv (w : FutexWorld) (n : ℕ) : Prop where
  nodup : ∀ k, (w.queue k).Nodup
  queued : ∀ k t, t ∈ w.queue k → ∃ x, w.wait t = some x ∧ x.futex = k ∧ x.counted = false
  waits : ∀ t x, w.wait t = some x → x.counted = false → t ∈ w.queue x.futex
  kept : ∀ t x, w.wait t = some x → x.counted = true →
    x.phase = .leaving .success ∨ x.phase.decided = false ∧ 0 < w.pipe t
  returned : ∀ r ∈ w.returned, r.counted = true → r.err = .success
  finite : FiniteSlots w.wait
  total : slotCount w.wait (fun x => x.counted = true) + w.returned.countP FutexReturn.counted =
    w.reported + n

lemma inv_init : init.Inv 0 := by
  constructor <;> simp [init, reported, finiteSlots_empty, slotCount_empty]

lemma phase_cases {p : FutexPhase} (h : p.givenUp = false) :
    p = .leaving .success ∨ p.decided = false := by
  cases p <;> simp_all [FutexPhase.givenUp, FutexPhase.decided]

variable {w : FutexWorld} {n : ℕ} {key key2 : FutexKey} {t : ℕ} {rest : List ℕ}

lemma Inv.queues (h : w.Inv n) : Queues w.queue := by
  refine ⟨h.nodup, fun k k' t hk hk' => ?_⟩
  obtain ⟨x, hx, rfl, -⟩ := h.queued k t hk
  obtain ⟨x', hx', rfl, -⟩ := h.queued k' t hk'
  rw [hx] at hx'
  rw [Option.some.inj hx']

lemma Inv.wakeFirst (h : w.Inv n) (hq : w.queue key = t :: rest)
    (hok : ∀ x, w.wait t = some x → x.phase.givenUp = false) :
    (w.wakeFirst key t rest).Inv (n + 1) := by
  obtain ⟨x, hx, hfx, hcx⟩ := h.queued key t (by simp [hq])
  constructor
  · exact (h.queues.popped hq).nodup
  · intro k t' ht'
    obtain ⟨hk, hne⟩ := (h.queues.mem_popped hq).1 ht'
    obtain ⟨y, hy, hfy, hcy⟩ := h.queued k t' hk
    exact ⟨y, by simp [FutexWorld.wakeFirst, hne, hy], hfy, hcy⟩
  · intro t' y hy hcy
    have hne : t' ≠ t := by
      rintro rfl
      simp [FutexWorld.wakeFirst, hx] at hy
      simp [← hy] at hcy
    simp only [FutexWorld.wakeFirst, update_of_ne hne] at hy
    exact (h.queues.mem_popped hq).2 ⟨h.waits t' y hy hcy, hne⟩
  · intro t' y hy hcy
    by_cases hne : t' = t
    · subst hne
      simp [FutexWorld.wakeFirst, hx] at hy
      rcases phase_cases (hok x hx) with hp | hp
      · exact Or.inl (by simp [← hy, hp])
      · exact Or.inr ⟨by simp [← hy, hp], by simp [FutexWorld.wakeFirst]⟩
    · simp only [FutexWorld.wakeFirst, update_of_ne hne] at hy ⊢
      exact h.kept t' y hy hcy
  · exact h.returned
  · exact h.finite.update t _
  · have hrep := slotCount_replace h.finite (P := fun x => x.counted = true) hx
      { x with counted := true }
    have htot := h.total
    simp only [hcx, Bool.false_eq_true, if_false, if_true] at hrep
    simp only [FutexWorld.wakeFirst, hx, Option.map_some, reported] at htot ⊢
    omega

lemma WakeOk.wakeFirst {wakeMax : ℕ} (h : w.Inv n) (hq : w.queue key = t :: rest)
    (hok : w.WakeOk key (wakeMax + 1)) : (w.wakeFirst key t rest).WakeOk key wakeMax := by
  intro t' ht' x hx
  simp only [FutexWorld.wakeFirst, update_self] at ht' hx
  have hrest : t' ∈ update w.queue key rest key := by
    rw [update_self]
    exact List.mem_of_mem_take ht'
  have hne : t' ≠ t := ((h.queues.mem_popped hq).1 hrest).2
  rw [update_of_ne hne] at hx
  exact hok t' (by simp [hq, ht']) x hx

lemma Inv.futexWakeQueue {wakeMax : ℕ} (h : w.Inv n) (hok : w.WakeOk key wakeMax) :
    (futexWakeQueue key wakeMax w).1.Inv (n + (FutexWorld.futexWakeQueue key wakeMax w).2) := by
  induction wakeMax generalizing w n with
  | zero => exact h
  | succ wakeMax ih =>
    cases hq : w.queue key with
    | nil => simpa only [FutexWorld.futexWakeQueue, hq, Nat.add_zero] using h
    | cons t rest =>
      have hfirst : (w.wakeFirst key t rest).Inv (n + 1) :=
        h.wakeFirst hq (hok t (by simp [hq]))
      have hrest := ih hfirst (hok.wakeFirst h hq)
      simp only [FutexWorld.futexWakeQueue, hq]
      rwa [Nat.add_right_comm] at hrest

lemma Inv.moveFirst (h : w.Inv n) (hq : w.queue key = t :: rest) :
    (w.moveFirst key key2 t rest).Inv n := by
  obtain ⟨x, hx, hfx, hcx⟩ := h.queued key t (by simp [hq])
  have hmem : ∀ k t', t' ∈ (w.moveFirst key key2 t rest).queue k ↔
      (t' ∈ w.queue k ∧ t' ≠ t) ∨ (k = key2 ∧ t' = t) := fun k t' =>
    mem_pushed.trans (or_congr_left (h.queues.mem_popped hq))
  constructor
  · refine ((h.queues.popped hq).pushed fun k hk => ?_).nodup
    exact ((h.queues.mem_popped hq).1 hk).2 rfl
  · intro k t' ht'
    rcases (hmem k t').1 ht' with ⟨hk, hne⟩ | ⟨rfl, rfl⟩
    · obtain ⟨y, hy, hfy, hcy⟩ := h.queued k t' hk
      exact ⟨y, by simp [FutexWorld.moveFirst, hne, hy], hfy, hcy⟩
    · exact ⟨{ x with futex := k }, by simp [FutexWorld.moveFirst, hx], rfl, hcx⟩
  · intro t' y hy hcy
    rw [hmem]
    by_cases hne : t' = t
    · subst hne
      simp [FutexWorld.moveFirst, hx] at hy
      exact Or.inr ⟨by simp [← hy], rfl⟩
    · simp only [FutexWorld.moveFirst, update_of_ne hne] at hy
      exact Or.inl ⟨h.waits t' y hy hcy, hne⟩
  · intro t' y hy hcy
    by_cases hne : t' = t
    · subst hne
      simp [FutexWorld.moveFirst, hx] at hy
      simp [← hy, hcx] at hcy
    · simp only [FutexWorld.moveFirst, update_of_ne hne] at hy ⊢
      exact h.kept t' y hy hcy
  · exact h.returned
  · exact h.finite.update t _
  · have hcount := slotCount_congr (f := w.wait) (P := fun x => x.counted = true) hx
      (b := { x with futex := key2 }) Iff.rfl
    simp only [FutexWorld.moveFirst, hx, Option.map_some, hcount]
    exact h.total

lemma Inv.requeueLoop {requeueMax : ℕ} (h : w.Inv n) :
    (requeueLoop key key2 requeueMax w).1.Inv n := by
  induction requeueMax generalizing w with
  | zero => exact h
  | succ requeueMax ih =>
    cases hq : w.queue key with
    | nil => simpa only [FutexWorld.requeueLoop, hq] using h
    | cons t rest =>
      have hfirst : (w.moveFirst key key2 t rest).Inv n := h.moveFirst hq
      simp only [FutexWorld.requeueLoop, hq]
      split_ifs
      · exact hfirst
      · exact ih hfirst

lemma Inv.reply (h : w.Inv n) (requeued : ℕ) : (w.reply n requeued).Inv 0 := by
  refine ⟨h.nodup, h.queued, h.waits, h.kept, h.returned, h.finite, ?_⟩
  have htot := h.total
  simp only [reported, FutexWorld.reply, List.map_append, List.sum_append] at htot ⊢
  simpa using htot

lemma Inv.ret (h : w.Inv n) (err : FutexRet) : (w.ret err false).Inv n := by
  refine ⟨h.nodup, h.queued, h.waits, h.kept, ?_, h.finite, ?_⟩
  · intro r hr hc
    rcases List.mem_append.1 hr with hr | hr
    · exact h.returned r hr hc
    · rw [List.mem_singleton.1 hr] at hc
      cases hc
  · have htot := h.total
    simp only [reported, FutexWorld.ret, List.countP_append] at htot ⊢
    simpa using htot

lemma Inv.enqueue (h : w.Inv n) (ht : w.wait t = none) {x : FutexWait} (hx : x.counted = false) :
    (w.enqueue t x).Inv n := by
  have hnot : ∀ k, t ∉ w.queue k := by
    intro k hk
    obtain ⟨y, hy, -⟩ := h.queued k t hk
    rw [ht] at hy
    cases hy
  constructor
  · exact (h.queues.pushed hnot).nodup
  · intro k t' ht'
    rcases mem_pushed.1 ht' with hk | ⟨rfl, rfl⟩
    · have hne : t' ≠ t := fun he => hnot k (he ▸ hk)
      obtain ⟨y, hy, hfy, hcy⟩ := h.queued k t' hk
      exact ⟨y, by simp [FutexWorld.enqueue, hne, hy], hfy, hcy⟩
    · exact ⟨x, by simp [FutexWorld.enqueue], rfl, hx⟩
  · intro t' y hy hcy
    by_cases hne : t' = t
    · subst hne
      simp only [FutexWorld.enqueue, update_self, Option.some.injEq] at hy
      simp [FutexWorld.enqueue, ← hy]
    · simp only [FutexWorld.enqueue, update_of_ne hne] at hy
      exact mem_pushed.2 (Or.inl (h.waits t' y hy hcy))
  · intro t' y hy hcy
    by_cases hne : t' = t
    · subst hne
      simp only [FutexWorld.enqueue, update_self, Option.some.injEq] at hy
      rw [← hy, hx] at hcy
      cases hcy
    · simp only [FutexWorld.enqueue, update_of_ne hne] at hy ⊢
      exact h.kept t' y hy hcy
  · exact h.returned
  · exact h.finite.update t _
  · have hfill := slotCount_fill h.finite (P := fun x => x.counted = true) ht x
    simp only [hx, Bool.false_eq_true, if_false] at hfill
    simp only [FutexWorld.enqueue, hfill]
    exact h.total

lemma Inv.futexWait (h : w.Inv n) (ht : w.wait t = none) (val : BitVec 32) (timeout : Option ℤ)
    (now : ℤ) (pipes : Bool) : (w.futexWait t key val timeout now pipes).Inv n := by
  unfold FutexWorld.futexWait
  cases w.mem key with
  | none => exact h.ret _
  | some tmp =>
    simp only
    split_ifs
    · exact h.ret _
    · exact h.enqueue ht rfl
    · exact h.ret _

/-! ### A waiter's own steps -/

lemma check_futex (x : FutexWait) (bytes : ℕ) (word : Option (BitVec 32)) (o : FutexObs) :
    (x.check bytes word o).futex = x.futex := by
  unfold FutexWait.check
  repeat' split
  all_goals rfl

lemma check_counted (x : FutexWait) (bytes : ℕ) (word : Option (BitVec 32)) (o : FutexObs) :
    (x.check bytes word o).counted = x.counted := by
  unfold FutexWait.check
  repeat' split
  all_goals rfl

lemma check_polling {x : FutexWait} {bytes : ℕ} (word : Option (BitVec 32)) (o : FutexObs)
    (hp : x.phase = .polling) (hb : 0 < bytes) :
    (x.check bytes word o).phase = .leaving .success := by
  simp [FutexWait.check, hp, hb]

lemma Inv.setWait (h : w.Inv n) {x y : FutexWait} (hx : w.wait t = some x)
    (hf : y.futex = x.futex) (hc : y.counted = x.counted) {bytes : ℕ}
    (hk : y.counted = true → y.phase = .leaving .success ∨ y.phase.decided = false ∧ 0 < bytes) :
    ({ w with wait := update w.wait t (some y), pipe := update w.pipe t bytes } :
      FutexWorld).Inv n := by
  constructor
  · exact h.nodup
  · intro k t' ht'
    obtain ⟨z, hz, hfz, hcz⟩ := h.queued k t' ht'
    by_cases hne : t' = t
    · subst hne
      rw [hx] at hz
      obtain rfl := Option.some.inj hz
      exact ⟨y, by simp, hf.trans hfz, hc.trans hcz⟩
    · exact ⟨z, by simp [hne, hz], hfz, hcz⟩
  · intro t' z hz hcz
    by_cases hne : t' = t
    · subst hne
      simp only [update_self, Option.some.injEq] at hz
      rw [← hz, hf]
      exact h.waits t' x hx (by rw [← hc, hz, hcz])
    · simp only [update_of_ne hne] at hz
      exact h.waits t' z hz hcz
  · intro t' z hz hcz
    by_cases hne : t' = t
    · subst hne
      simp only [update_self, Option.some.injEq] at hz ⊢
      rw [← hz] at hcz ⊢
      exact hk hcz
    · simp only [update_of_ne hne] at hz ⊢
      exact h.kept t' z hz hcz
  · exact h.returned
  · exact h.finite.update t _
  · have hcount := slotCount_congr (f := w.wait) (P := fun x => x.counted = true) hx (b := y)
      (by rw [hc])
    simp only [hcount]
    exact h.total

lemma Inv.leave (h : w.Inv n) {x : FutexWait} (hx : w.wait t = some x) (err : FutexRet)
    (herr : x.counted = true → err = .success) : ((w.leave t).ret err x.counted).Inv n := by
  have hmem : ∀ k t', t' ∈ (w.queue k).erase t ↔ t' ≠ t ∧ t' ∈ w.queue k :=
    fun k t' => (h.nodup k).mem_erase_iff
  constructor
  · exact fun k => (h.nodup k).erase t
  · intro k t' ht'
    obtain ⟨hne, hk⟩ := (hmem k t').1 ht'
    obtain ⟨y, hy, hfy⟩ := h.queued k t' hk
    exact ⟨y, by simp [FutexWorld.ret, FutexWorld.leave, hne, hy], hfy⟩
  · intro t' y hy hcy
    have hne : t' ≠ t := by
      rintro rfl
      simp [FutexWorld.ret, FutexWorld.leave] at hy
    simp only [FutexWorld.ret, FutexWorld.leave, update_of_ne hne] at hy
    exact (hmem _ t').2 ⟨hne, h.waits t' y hy hcy⟩
  · intro t' y hy hcy
    have hne : t' ≠ t := by
      rintro rfl
      simp [FutexWorld.ret, FutexWorld.leave] at hy
    simp only [FutexWorld.ret, FutexWorld.leave, update_of_ne hne] at hy
    exact h.kept t' y hy hcy
  · intro r hr hc
    rcases List.mem_append.1 hr with hr | hr
    · exact h.returned r hr hc
    · rw [List.mem_singleton.1 hr] at hc ⊢
      exact herr hc
  · exact h.finite.update t _
  · have hclear := slotCount_clear h.finite (P := fun x => x.counted = true) hx
    have htot := h.total
    simp only [reported, FutexWorld.ret, FutexWorld.leave, List.countP_append,
      List.countP_singleton] at htot ⊢
    omega

lemma Inv.of_ret {err : FutexRet} (h : (w.ret err false).Inv n) : w.Inv n := by
  refine ⟨h.nodup, h.queued, h.waits, h.kept, ?_, h.finite, ?_⟩
  · exact fun r hr => h.returned r (List.mem_append_left _ hr)
  · have htot := h.total
    simp only [reported, FutexWorld.ret, List.countP_append] at htot ⊢
    simpa using htot

lemma Inv.proceed (h : w.Inv n) {x : FutexWait} (hx : w.wait t = some x) {o : FutexObs}
    (hok : x.phase.decided = false →
      (x.check (w.pipe t) (w.mem x.uaddr) o).phase.givenUp = true → t ∈ w.queue x.futex) :
    (w.proceed t x o).Inv n := by
  set y := x.check (w.pipe t) (w.mem x.uaddr) o with hy
  have hf : y.futex = x.futex := check_futex _ _ _ _
  have hc : y.counted = x.counted := check_counted _ _ _ _
  -- a counted waiter is in no queue, so it does not give up now
  have hstay : x.phase.decided = false → y.counted = true →
      y.phase = .leaving .success ∨ y.phase.decided = false ∧ 0 < w.pipe t := by
    intro hd hcy
    rw [hc] at hcy
    have hpipe : 0 < w.pipe t := by
      rcases h.kept t x hx hcy with hp | ⟨-, hp⟩
      · rw [hp] at hd
        cases hd
      · exact hp
    have hup : y.phase.givenUp = false := by
      by_contra hg
      obtain ⟨z, hz, -, hcz⟩ := h.queued _ t (hok hd (Bool.not_eq_false _ ▸ hg))
      rw [hx] at hz
      rw [← Option.some.inj hz, hcy] at hcz
      cases hcz
    rcases phase_cases hup with hp | hp
    · exact Or.inl hp
    · exact Or.inr ⟨hp, hpipe⟩
  have hset : x.phase.decided = false →
      ({ w with wait := update w.wait t (some y) } : FutexWorld).Inv n := by
    intro hd
    have hset := h.setWait hx hf hc (hstay hd)
    rwa [update_eq_self] at hset
  unfold FutexWorld.proceed
  split
  case h_1 err hp =>
    refine h.leave hx _ fun hcx => ?_
    rcases h.kept t x hx hcx with hk | ⟨hk, -⟩
    · rw [hp] at hk
      exact FutexPhase.leaving.inj hk
    · rw [hp] at hk
      cases hk
  case h_2 hp =>
    have hcx : x.counted = false := by
      by_contra hcx
      rcases h.kept t x hx (Bool.not_eq_false _ ▸ hcx) with hk | ⟨hk, -⟩
      · rw [hp] at hk
        cases hk
      · rw [hp] at hk
        cases hk
    have hleave := h.leave hx .success fun _ => rfl
    rw [hcx] at hleave
    exact hleave.of_ret
  case h_3 hp =>
    refine h.setWait hx hf hc fun hcy => ?_
    rcases hstay (by rw [hp]; rfl) hcy with hk | ⟨hk, hpipe⟩
    · exact Or.inl hk
    · exact Or.inl (check_polling _ o hp hpipe)
  case h_4 h1 h2 h3 =>
    apply hset
    cases hph : x.phase with
    | leaving err => exact absurd hph (h1 err)
    | exiting => exact absurd hph h2
    | _ => rfl

/-! ### Runs -/

lemma Inv.futexWake (h : w.Inv 0) {wakeMax : ℕ} (hok : w.WakeOk key wakeMax) :
    (w.futexWake key wakeMax).Inv 0 := by
  have hq := h.futexWakeQueue hok
  rw [Nat.zero_add] at hq
  exact hq.reply 0

lemma Inv.futexRequeue (h : w.Inv 0) {wakeMax requeueMax : ℕ} (hok : w.WakeOk key wakeMax) :
    (w.futexRequeue key wakeMax requeueMax key2).Inv 0 := by
  have hq := h.futexWakeQueue hok
  rw [Nat.zero_add] at hq
  exact hq.requeueLoop.reply _

lemma Inv.congr {w' : FutexWorld} (h : w.Inv n) (hq : w'.queue = w.queue) (hw : w'.wait = w.wait)
    (hp : w'.pipe = w.pipe) (hr : w'.returned = w.returned) (hr' : w'.replies = w.replies) :
    w'.Inv n := by
  obtain ⟨h1, h2, h3, h4, h5, h6, h7⟩ := h
  constructor <;> simp only [reported, hq, hw, hp, hr, hr'] <;> assumption

lemma Inv.futexWakeOpBegin (h : w.Inv n) {wakeMax1 wakeMax2 : ℕ} {val3 : BitVec 32} :
    (w.futexWakeOpBegin t key wakeMax1 key2 wakeMax2 val3).Inv n := by
  unfold FutexWorld.futexWakeOpBegin
  split
  · exact h
  · exact h.congr rfl rfl rfl rfl rfl

lemma Inv.futexWakeOpEnd (h : w.Inv 0) {op : FutexWakeOp} (hok : w.WakeOk op.uaddr op.wakeMax1)
    (hok2 : op.cmpTrue = true →
      (FutexWorld.futexWakeQueue op.uaddr op.wakeMax1 w).1.WakeOk op.uaddr2 op.wakeMax2) :
    (w.futexWakeOpEnd t op).Inv 0 := by
  have hq := h.futexWakeQueue hok
  rw [Nat.zero_add] at hq
  refine Inv.congr (w := (FutexWorld.futexWakeOpEnd w t op)) ?_ rfl rfl rfl rfl rfl
  unfold FutexWorld.futexWakeOpEnd
  split_ifs with hcmp
  · exact ((hq.futexWakeQueue (hok2 hcmp)).reply 0).congr rfl rfl rfl rfl rfl
  · exact (hq.reply 0).congr rfl rfl rfl rfl rfl

/-- The step lemma. -/
theorem inv_step {act : FutexAct} (hact : w.Admits act) (h : w.Inv 0) : (w.step act).Inv 0 := by
  cases act with
  | store key word => exact h.congr rfl rfl rfl rfl rfl
  | wait t key val timeout now pipes =>
    simp only [step]
    split_ifs with ht
    · exact h.futexWait ht.1 val timeout now pipes
    · exact h
  | proceed t o =>
    simp only [step]
    cases hx : w.wait t with
    | none => exact h
    | some x => exact h.proceed hx (hact x hx)
  | wake key wakeMax => exact h.futexWake hact
  | requeue key wakeMax requeueMax requeueKey expected =>
    cases expected with
    | none => exact h.futexRequeue (hact (by simp))
    | some expected =>
      simp only [step, futexCmpRequeue]
      split_ifs with hmem
      · exact h.futexRequeue (hact (by simpa using hmem))
      · exact h
  | wakeOp t key wakeMax1 key2 wakeMax2 val3 =>
    simp only [step]
    split_ifs
    · exact h.futexWakeOpBegin
    · exact h
  | wakeOpEnd t =>
    simp only [step]
    cases hop : w.op t with
    | none => exact h
    | some op =>
      obtain ⟨hok, hok2⟩ := hact op hop
      exact h.futexWakeOpEnd hok hok2

def wokenOk (r : FutexReturn) : Bool := r.counted && r.err = .success

/-- Every wait that a waker counted returns success or is about to, and as many waits have been
or will be woken as the wakers reported. -/
theorem counted_waits_succeed {acts : List FutexAct} (hacts : RunAll step Admits init acts)
    (hw : w = run step init acts) :
    (∀ r ∈ w.returned, r.counted = true → r.err = .success) ∧
      (∀ t x, w.wait t = some x → x.counted = true →
        x.phase = .leaving .success ∨ x.phase.decided = false ∧ 0 < w.pipe t) ∧
      slotCount w.wait (fun x => x.counted = true) + w.returned.countP wokenOk = w.reported ∧
      ((∀ t, w.wait t = none) → w.returned.countP wokenOk = w.reported) := by
  have h : w.Inv 0 := by
    rw [hw]
    refine run_invariant (P := fun w => w.Inv 0) ?_ hacts inv_init
    intro w act hact h
    exact inv_step hact h
  have hcount : w.returned.countP wokenOk = w.returned.countP FutexReturn.counted := by
    refine List.countP_congr fun r hr => ?_
    rw [wokenOk, Bool.and_eq_true, decide_eq_true_iff]
    exact and_iff_left_of_imp (h.returned r hr)
  have htot : slotCount w.wait (fun x => x.counted = true) + w.returned.countP wokenOk =
      w.reported := by
    rw [hcount]
    exact h.total
  refine ⟨h.returned, h.kept, htot, fun hnone => ?_⟩
  have hzero : slotCount w.wait (fun x => x.counted = true) = 0 := by
    refine (slotCount_eq_zero h.finite).2 fun t x hx => ?_
    rw [hnone t] at hx
    cases hx
  rwa [hzero, Nat.zero_add] at htot

def someKey : FutexKey := { mem := 1, addr := 0x1000 }

def wakeRun : List FutexAct :=
  [.wait 1 someKey 0 none 0 true, .proceed 1 {}, .wake someKey 1, .proceed 1 {}, .proceed 1 {}]

theorem counted_waits_succeed_wake :
    (run step init wakeRun).reported = 1 ∧
      ∀ r ∈ (run step init wakeRun).returned, r.counted = true → r.err = .success := by
  have hrun : RunAll step Admits init wakeRun := by
    simp only [wakeRun, RunAll, Admits, WakeOk, and_true]
    decide
  exact ⟨by decide, (counted_waits_succeed hrun rfl).1⟩

/-- A waiter whose time has run out is counted by a waker before it has left. -/
theorem counted_wait_times_out :
    (run step init [.wait 1 someKey 0 (some 1000000) 0 true, .proceed 1 { now := 1000000 },
      .wake someKey 1, .proceed 1 {}]).returned = [{ err := .etimedout, counted := true }] ∧
    (run step init [.wait 1 someKey 0 (some 1000000) 0 true, .proceed 1 { now := 1000000 },
      .wake someKey 1, .proceed 1 {}]).replies = [{ woken := 1, requeued := 0 }] := by
  decide

end FutexWorld

end ShellBox
