import ShellBox.Kernel.FutexWake

/-!
# The references of futexes, and what a requeue moves

A futex object exists while somebody holds a reference to it: a call that works on it, or a waiter
that has come through it. The reference of a waiter goes with the waiter when it is requeued.

A requeue moves each waiter at most once, unless it moves them to their own queue. There the
waiters that it puts at the end come round again, and are moved and counted once more.
-/

namespace ShellBox

open Function

/-- The futexes with the reference counts of their objects, which do not exist at 0. `failed`
tells if an assertion has failed. -/
structure FutexRefs where
  world : FutexWorld
  refs : FutexKey → ℕ
  failed : Bool

namespace FutexRefs

def init : FutexRefs :=
  { world := FutexWorld.init, refs := fun _ => 0, failed := false }

/-- `futex_get`, and `futex_get_unlocked`. -/
def futexGet (r : FutexRefs) (key : FutexKey) : FutexRefs :=
  { r with refs := update r.refs key (r.refs key + 1) }

/-- `futex_put`, and `futex_put_unlocked`. -/
def futexPut (r : FutexRefs) (key : FutexKey) : FutexRefs :=
  { r with
    refs := update r.refs key (r.refs key - 1)
    failed := r.failed || decide (r.refs key = 0 ∨ r.refs key = 1 ∧ r.world.queue key ≠ []) }

def moveFirst (r : FutexRefs) (key key2 : FutexKey) (t : ℕ) (rest : List ℕ) : FutexRefs :=
  let refs := update r.refs key (r.refs key - 1)
  { world  := r.world.moveFirst key key2 t rest
    refs   := update refs key2 (refs key2 + 1)
    failed := r.failed || decide (r.refs key ≤ 1) }

/-- `FutexWorld.requeueLoop`. -/
def requeueLoop (key key2 : FutexKey) : ℕ → FutexRefs → FutexRefs × ℕ
  | 0, r => (r, 0)
  | requeueMax + 1, r =>
    match r.world.queue key with
    | [] => (r, 0)
    | t :: rest =>
      if key2 = key ∧ rest = [] then (r.moveFirst key key2 t rest, 1)
      else
        let next := requeueLoop key key2 requeueMax (r.moveFirst key key2 t rest)
        (next.1, next.2 + 1)

def futexWait (r : FutexRefs) (t : ℕ) (key : FutexKey) (val : BitVec 32) (timeout : Option ℤ)
    (now : ℤ) (pipes : Bool) : FutexRefs :=
  let next := { r.futexGet key with world := r.world.futexWait t key val timeout now pipes }
  if r.world.mem key = some val ∧ pipes = true then next else next.futexPut key

def proceed (r : FutexRefs) (t : ℕ) (x : FutexWait) (o : FutexObs) : FutexRefs :=
  let next := { r with world := r.world.proceed t x o }
  if x.phase.decided then next.futexPut x.futex else next

def futexWake (r : FutexRefs) (key : FutexKey) (wakeMax : ℕ) : FutexRefs :=
  ({ r.futexGet key with world := r.world.futexWake key wakeMax }).futexPut key

def futexRequeue (r : FutexRefs) (key : FutexKey) (wakeMax requeueMax : ℕ)
    (requeueKey : FutexKey) : FutexRefs :=
  let woken := FutexWorld.futexWakeQueue key wakeMax r.world
  let both := ({ r.futexGet key with world := woken.1 }).futexGet requeueKey
  let moved := requeueLoop key requeueKey requeueMax both
  let last := (moved.1.futexPut requeueKey).futexPut key
  { last with world := last.world.reply woken.2 moved.2 }

def futexCmpRequeue (r : FutexRefs) (key : FutexKey) (wakeMax requeueMax : ℕ)
    (requeueKey : FutexKey) (expected : BitVec 32) : FutexRefs :=
  if r.world.mem key = some expected then r.futexRequeue key wakeMax requeueMax requeueKey
  else (r.futexGet key).futexPut key

def futexWakeOpEnd (r : FutexRefs) (t : ℕ) (op : FutexWakeOp) : FutexRefs :=
  let woken := FutexWorld.futexWakeQueue op.uaddr op.wakeMax1 r.world
  let first := { r.futexGet op.uaddr with world := woken.1 }
  let woken2 := FutexWorld.futexWakeQueue op.uaddr2 op.wakeMax2 first.world
  let second :=
    if op.cmpTrue then ({ first.futexGet op.uaddr2 with world := woken2.1 }).futexPut op.uaddr2
    else first
  { second.futexPut op.uaddr with world := r.world.futexWakeOpEnd t op }

def step (r : FutexRefs) : FutexAct → FutexRefs
  | .store key word => { r with world := { r.world with mem := update r.world.mem key word } }
  | .wait t key val timeout now pipes =>
    if r.world.wait t = none ∧ r.world.op t = none then
      r.futexWait t key val timeout now pipes
    else r
  | .proceed t o =>
    match r.world.wait t with
    | some x => r.proceed t x o
    | none   => r
  | .wake key wakeMax => r.futexWake key wakeMax
  | .requeue key wakeMax requeueMax requeueKey none =>
    r.futexRequeue key wakeMax requeueMax requeueKey
  | .requeue key wakeMax requeueMax requeueKey (some expected) =>
    r.futexCmpRequeue key wakeMax requeueMax requeueKey expected
  | .wakeOp t key wakeMax1 key2 wakeMax2 val3 =>
    if r.world.wait t = none ∧ r.world.op t = none then
      { r with world := r.world.futexWakeOpBegin t key wakeMax1 key2 wakeMax2 val3 }
    else r
  | .wakeOpEnd t =>
    match r.world.op t with
    | some op => r.futexWakeOpEnd t op
    | none    => r

def run (acts : List FutexAct) : FutexRefs := acts.foldl step init

end FutexRefs

/-! ### What a requeue is to do -/

namespace FutexWorld

def woken (w : FutexWorld) (key : FutexKey) (wakeMax : ℕ) : List ℕ := (w.queue key).take wakeMax

def asleep (w : FutexWorld) (key : FutexKey) (wakeMax : ℕ) : List ℕ := (w.queue key).drop wakeMax

/-- From `w` to `w'` the first `wakeMax` waiters of a queue are woken, the next `requeueMax` are
moved to the end of another queue in their order, and nothing else happens to any waiter. The
reply counts each of them once. -/
structure RequeueExact (w w' : FutexWorld) (key : FutexKey) (wakeMax requeueMax : ℕ)
    (key2 : FutexKey) : Prop where
  source : key ≠ key2 → w'.queue key = (w.asleep key wakeMax).drop requeueMax
  target : w'.queue key2 =
    (if key2 = key then (w.asleep key wakeMax).drop requeueMax else w.queue key2) ++
      (w.asleep key wakeMax).take requeueMax
  others : ∀ k, k ≠ key → k ≠ key2 → w'.queue k = w.queue k
  pipe : ∀ t, w'.pipe t = w.pipe t + if t ∈ w.woken key wakeMax then 1 else 0
  wait : ∀ t, w'.wait t = (w.wait t).map fun x => { x with
    futex   := if t ∈ (w.asleep key wakeMax).take requeueMax then key2 else x.futex
    counted := x.counted || decide (t ∈ w.woken key wakeMax) }
  reply : w'.replies = w.replies ++
    [{ woken    := min wakeMax (w.queue key).length
       requeued := min requeueMax (w.asleep key wakeMax).length }]

/-- No waiter is moved twice: the queues differ, or one round through the waiters that are left
is not passed. -/
def RequeueOnce (w : FutexWorld) (key : FutexKey) (wakeMax requeueMax : ℕ) (key2 : FutexKey) :
    Prop :=
  key ≠ key2 ∨ (w.asleep key wakeMax).length ≤ 1 ∨ requeueMax ≤ (w.asleep key wakeMax).length

/-! ### The queues after a wake and after a requeue -/

variable {w : FutexWorld} {key key2 : FutexKey} {t : ℕ} {rest : List ℕ}

/-- `w` with the first waiters of a queue woken. -/
def afterWake (w : FutexWorld) (key : FutexKey) (wakeMax : ℕ) : FutexWorld :=
  { w with
    queue := update w.queue key (w.asleep key wakeMax)
    wait := fun t => (w.wait t).map fun x =>
      { x with counted := x.counted || decide (t ∈ w.woken key wakeMax) }
    pipe := fun t => w.pipe t + if t ∈ w.woken key wakeMax then 1 else 0 }

@[simp] lemma afterWake_queue (w : FutexWorld) (key : FutexKey) (wakeMax : ℕ) :
    (w.afterWake key wakeMax).queue key = w.asleep key wakeMax := update_self ..

lemma futexWakeQueue_eq (hnd : (w.queue key).Nodup) (wakeMax : ℕ) :
    futexWakeQueue key wakeMax w = (w.afterWake key wakeMax, min wakeMax (w.queue key).length) := by
  induction wakeMax generalizing w with
  | zero => simp [futexWakeQueue, afterWake, asleep, woken]
  | succ wakeMax ih =>
    cases hq : w.queue key with
    | nil =>
      have hself : update w.queue key [] = w.queue := by rw [← hq, update_eq_self]
      simp [futexWakeQueue, afterWake, asleep, woken, hq, hself]
    | cons t rest =>
      rw [hq] at hnd
      obtain ⟨ht, hrest⟩ := List.nodup_cons.1 hnd
      have hfirst : (w.wakeFirst key t rest).queue key = rest := by simp [wakeFirst]
      have hnext := ih (w := w.wakeFirst key t rest) (by rwa [hfirst])
      simp only [futexWakeQueue, hq, hnext, afterWake, asleep, woken, hfirst, List.drop_succ_cons,
        List.take_succ_cons, List.length_cons, Prod.mk.injEq, FutexWorld.mk.injEq]
      refine ⟨⟨rfl, ?_, ?_, ?_, rfl, rfl, rfl⟩, by omega⟩
      · exact update_idem _ _ _
      · funext t'
        by_cases he : t' = t
        · subst he
          cases hx : w.wait t' <;> simp [wakeFirst, hx]
        · simp [wakeFirst, he]
      · funext t'
        by_cases he : t' = t
        · subst he
          have hnot : t' ∉ rest.take wakeMax := fun hm => ht (List.mem_of_mem_take hm)
          simp [wakeFirst, hnot]
        · simp [wakeFirst, he]

/-- `w` with the first waiters of a queue moved to another one, or to the end of their own. -/
def afterMove (w : FutexWorld) (key key2 : FutexKey) (requeueMax : ℕ) : FutexWorld :=
  { w with
    queue := update (update w.queue key ((w.queue key).drop requeueMax)) key2
      ((if key2 = key then (w.queue key).drop requeueMax else w.queue key2) ++
        (w.queue key).take requeueMax)
    wait := fun t => (w.wait t).map fun x =>
      { x with futex := if t ∈ (w.queue key).take requeueMax then key2 else x.futex } }

lemma requeueLoop_eq (hne : key2 ≠ key) (hnd : (w.queue key).Nodup) (requeueMax : ℕ) :
    requeueLoop key key2 requeueMax w =
      (w.afterMove key key2 requeueMax, min requeueMax (w.queue key).length) := by
  induction requeueMax generalizing w with
  | zero => simp [requeueLoop, afterMove, hne]
  | succ requeueMax ih =>
    cases hq : w.queue key with
    | nil =>
      have hself : update w.queue key [] = w.queue := by rw [← hq, update_eq_self]
      simp [requeueLoop, afterMove, hne, hq, hself]
    | cons t rest =>
      rw [hq] at hnd
      obtain ⟨ht, hrest⟩ := List.nodup_cons.1 hnd
      have hfirst : (w.moveFirst key key2 t rest).queue key = rest := by
        simp [moveFirst, update_of_ne hne.symm]
      have htarget : (w.moveFirst key key2 t rest).queue key2 = w.queue key2 ++ [t] := by
        simp [moveFirst, update_of_ne hne]
      have hnext := ih (w := w.moveFirst key key2 t rest) (by rwa [hfirst])
      simp only [requeueLoop, hq, hne, false_and, if_false, hnext, afterMove, hfirst, htarget,
        List.drop_succ_cons, List.take_succ_cons, List.length_cons, Prod.mk.injEq,
        FutexWorld.mk.injEq]
      refine ⟨⟨rfl, ?_, ?_, rfl, rfl, rfl, rfl⟩, by omega⟩
      · funext k
        by_cases h2 : k = key2
        · subst h2
          simp
        · by_cases h1 : k = key
          · subst h1
            simp [h2]
          · simp [moveFirst, h1, h2]
      · funext t'
        by_cases he : t' = t
        · subst he
          have hnot : t' ∉ rest.take requeueMax := fun hm => ht (List.mem_of_mem_take hm)
          cases hx : w.wait t' <;> simp [moveFirst, hx, hnot]
        · simp [moveFirst, he]

def Linked (w : FutexWorld) : Prop :=
  ∀ k, ∀ t ∈ w.queue k, ∃ x, w.wait t = some x ∧ x.futex = k

lemma moveFirst_self (hw : w.Linked) (hq : w.queue key = t :: rest) :
    w.moveFirst key key t rest = { w with queue := update w.queue key (rest ++ [t]) } := by
  obtain ⟨x, hx, hf⟩ := hw key t (by simp [hq])
  have hwait : update w.wait t (some { x with futex := key }) = w.wait := by
    rw [← hf, ← hx, update_eq_self]
  simp only [moveFirst, hx, Option.map_some, hwait, update_self, update_idem]

lemma requeueLoop_self (hw : w.Linked) (hlen : 2 ≤ (w.queue key).length) (requeueMax : ℕ) :
    requeueLoop key key requeueMax w =
      ({ w with queue := update w.queue key ((w.queue key).rotate requeueMax) }, requeueMax) := by
  induction requeueMax generalizing w with
  | zero => simp [requeueLoop]
  | succ requeueMax ih =>
    cases hq : w.queue key with
    | nil => simp [hq] at hlen
    | cons t rest =>
      have hrest : rest ≠ [] := by
        rintro rfl
        simp [hq] at hlen
      have hlinked : Linked { w with queue := update w.queue key (rest ++ [t]) } := by
        intro k t' ht'
        apply hw k t'
        by_cases hk : k = key
        · subst hk
          simpa [hq, or_comm] using ht'
        · simpa [update_of_ne hk] using ht'
      have hnext := ih hlinked (by simpa [hq] using hlen)
      simp only [requeueLoop, hq, hrest, and_false, if_false, moveFirst_self hw hq, hnext,
        update_self, update_idem, List.rotate_cons_succ]

lemma requeueLoop_self_short (hw : w.Linked) (hlen : (w.queue key).length ≤ 1)
    (requeueMax : ℕ) :
    requeueLoop key key requeueMax w = (w, min requeueMax (w.queue key).length) := by
  cases requeueMax with
  | zero => simp [requeueLoop]
  | succ requeueMax =>
    cases hq : w.queue key with
    | nil => simp [requeueLoop, hq]
    | cons t rest =>
      obtain rfl : rest = [] := by simpa [hq] using hlen
      have hself : update w.queue key [t] = w.queue := by rw [← hq, update_eq_self]
      simp [requeueLoop, hq, moveFirst_self hw hq, hself]

lemma drop_append_take_of_length_le_one {α : Type*} {l : List α} (h : l.length ≤ 1) (n : ℕ) :
    l.drop n ++ l.take n = l := by
  cases n with
  | zero => simp
  | succ n => rw [List.drop_eq_nil_of_le (by omega), List.take_of_length_le (by omega),
      List.nil_append]

lemma Linked.refutex (hw : w.Linked) {l : List ℕ} (hl : l ⊆ w.queue key) :
    (fun t => (w.wait t).map fun x => { x with futex := if t ∈ l then key else x.futex }) =
      w.wait := by
  funext t
  cases hx : w.wait t with
  | none => rfl
  | some x =>
    simp only [Option.map_some, Option.some.injEq]
    split_ifs with ht
    · obtain ⟨y, hy, rfl⟩ := hw key t (hl ht)
      obtain rfl : x = y := Option.some.inj (hx.symm.trans hy)
      rfl
    · rfl

lemma requeueLoop_once (hw : w.Linked) (hnd : (w.queue key).Nodup) {requeueMax : ℕ}
    (h : key ≠ key2 ∨ (w.queue key).length ≤ 1 ∨ requeueMax ≤ (w.queue key).length) :
    requeueLoop key key2 requeueMax w =
      (w.afterMove key key2 requeueMax, min requeueMax (w.queue key).length) := by
  by_cases he : key2 = key
  · subst he
    rw [afterMove, hw.refutex (List.take_subset _ _), if_pos rfl, update_idem]
    by_cases hlen : (w.queue key2).length ≤ 1
    · rw [requeueLoop_self_short hw hlen, drop_append_take_of_length_le_one hlen, update_eq_self]
    · have hmax : requeueMax ≤ (w.queue key2).length := by
        rcases h with h | h | h
        · exact absurd rfl h
        · exact absurd h hlen
        · exact h
      rw [requeueLoop_self hw (by omega), List.rotate_eq_drop_append_take hmax,
        Nat.min_eq_left hmax]
  · exact requeueLoop_eq he hnd requeueMax

lemma Linked.afterWake (hw : w.Linked) (key : FutexKey) (wakeMax : ℕ) :
    (w.afterWake key wakeMax).Linked := by
  intro k t ht
  have hmem : t ∈ w.queue k := by
    by_cases hk : k = key
    · subst hk
      rw [afterWake_queue] at ht
      exact List.mem_of_mem_drop ht
    · simpa [FutexWorld.afterWake, hk] using ht
  obtain ⟨x, hx, hf⟩ := hw k t hmem
  exact ⟨{ x with counted := x.counted || decide (t ∈ w.woken key wakeMax) },
    by simp [FutexWorld.afterWake, hx], hf⟩

lemma futexRequeue_exact (hw : w.Linked) (hnd : (w.queue key).Nodup) {wakeMax requeueMax : ℕ}
    (h : w.RequeueOnce key wakeMax requeueMax key2) :
    RequeueExact w (w.futexRequeue key wakeMax requeueMax key2) key wakeMax requeueMax key2 := by
  have hasleep : ((w.afterWake key wakeMax).queue key).Nodup := by
    rw [afterWake_queue]
    exact hnd.sublist (List.drop_sublist _ _)
  have honce : key ≠ key2 ∨ ((w.afterWake key wakeMax).queue key).length ≤ 1 ∨
      requeueMax ≤ ((w.afterWake key wakeMax).queue key).length := by
    rwa [afterWake_queue]
  have hloop := requeueLoop_once (hw.afterWake key wakeMax) hasleep honce
  have hcall : w.futexRequeue key wakeMax requeueMax key2 =
      ((w.afterWake key wakeMax).afterMove key key2 requeueMax).reply
        (min wakeMax (w.queue key).length) (min requeueMax (w.asleep key wakeMax).length) := by
    simp only [futexRequeue, futexWakeQueue_eq hnd, hloop, afterWake_queue]
  rw [hcall]
  constructor
  · intro hne
    simp [reply, afterMove, hne]
  · by_cases he : key2 = key <;> simp [reply, afterMove, afterWake, he]
  · intro k h1 h2
    simp [reply, afterMove, afterWake, h1, h2]
  · intro t
    rfl
  · intro t
    simp only [reply, afterMove, afterWake_queue]
    cases hx : w.wait t <;> simp [afterWake, hx]
  · rfl

lemma requeueOnce_of_exact (hw : w.Linked) (hnd : (w.queue key).Nodup)
    {wakeMax requeueMax : ℕ} (h : RequeueExact w (w.futexRequeue key wakeMax requeueMax key2) key
      wakeMax requeueMax key2) : w.RequeueOnce key wakeMax requeueMax key2 := by
  by_contra hnot
  simp only [RequeueOnce, not_or, not_not, not_le] at hnot
  obtain ⟨rfl, hlen, hmax⟩ := hnot
  have hmany : 2 ≤ ((w.afterWake key wakeMax).queue key).length := by
    rwa [afterWake_queue]
  have hloop := requeueLoop_self (hw.afterWake key wakeMax) hmany requeueMax
  have hcall : (w.futexRequeue key wakeMax requeueMax key).replies = w.replies ++
      [{ woken := min wakeMax (w.queue key).length, requeued := requeueMax }] := by
    simp only [futexRequeue, futexWakeQueue_eq hnd, hloop]
    rfl
  have hreply := h.reply
  rw [hcall, List.append_cancel_left_eq, List.cons.injEq, FutexReply.mk.injEq] at hreply
  omega

end FutexWorld

namespace FutexRefs

open FutexWorld (Linked)

/-! ### The balance of the references -/

/-- The references are those of the waits that have not returned, and those that calls hold. -/
structure Balanced (held : FutexKey → ℕ) (r : FutexRefs) : Prop where
  finite : FiniteSlots r.world.wait
  nodup : ∀ k, (r.world.queue k).Nodup
  linked : r.world.Linked
  refs : ∀ k, r.refs k = slotCount r.world.wait (fun x => x.futex = k) + held k
  intact : r.failed = false

lemma balanced_init : Balanced 0 init := by
  constructor <;>
    simp [init, FutexWorld.init, FutexWorld.Linked, finiteSlots_empty, slotCount_empty]

variable {r : FutexRefs} {held : FutexKey → ℕ} {key key2 : FutexKey} {t : ℕ} {x : FutexWait}
  {rest : List ℕ}

lemma Balanced.futexGet (h : Balanced held r) (key : FutexKey) :
    Balanced (held + Pi.single key 1) (r.futexGet key) := by
  refine ⟨h.finite, h.nodup, h.linked, ?_, h.intact⟩
  intro k
  by_cases hk : k = key
  · subst hk
    simp [FutexRefs.futexGet, h.refs, Nat.add_assoc]
  · simp [FutexRefs.futexGet, h.refs, hk]

lemma Balanced.queue_eq_nil (h : Balanced held r)
    (hz : slotCount r.world.wait (fun x => x.futex = key) = 0) : r.world.queue key = [] := by
  apply List.eq_nil_iff_forall_not_mem.2
  intro t ht
  obtain ⟨x, hx, hf⟩ := h.linked key t ht
  exact (slotCount_eq_zero h.finite).1 hz t x hx hf

lemma Balanced.futexPut (h : Balanced (held + Pi.single key 1) r) :
    Balanced held (r.futexPut key) := by
  refine ⟨h.finite, h.nodup, h.linked, ?_, ?_⟩
  · intro k
    by_cases hk : k = key
    · subst hk
      simp [FutexRefs.futexPut, h.refs]
    · simp [FutexRefs.futexPut, h.refs, hk]
  · have hrefs := h.refs key
    simp only [Pi.add_apply, Pi.single_eq_same] at hrefs
    have hempty : r.refs key = 1 → r.world.queue key = [] := fun hone =>
      h.queue_eq_nil (by omega)
    have hpos : r.refs key ≠ 0 := by omega
    simpa [FutexRefs.futexPut, h.intact, hpos] using hempty

lemma Balanced.onWorld (h : Balanced held r) {w : FutexWorld}
    (hq : ∀ k, (w.queue k).Sublist (r.world.queue k))
    (hw : ∀ t, (w.wait t).map FutexWait.futex = (r.world.wait t).map FutexWait.futex) :
    Balanced held { r with world := w } := by
  have hsome : ∀ t k, (∃ x, w.wait t = some x ∧ x.futex = k) ↔
      ∃ x, r.world.wait t = some x ∧ x.futex = k := by
    intro t k
    have hmap : ∀ o : Option FutexWait,
        (∃ x, o = some x ∧ x.futex = k) ↔ o.map FutexWait.futex = some k :=
      fun o => Option.map_eq_some_iff.symm
    rw [hmap, hmap, hw]
  refine ⟨?_, ?_, ?_, ?_, h.intact⟩
  · refine h.finite.subset fun t ht hn => ht ?_
    have hmap := hw t
    rw [hn] at hmap
    simpa using hmap
  · exact fun k => (h.nodup k).sublist (hq k)
  · intro k t ht
    exact (hsome t k).2 (h.linked k t ((hq k).subset ht))
  · intro k
    have hslots : slots w.wait (fun x => x.futex = k) =
        slots r.world.wait fun x => x.futex = k := Set.ext fun t => hsome t k
    show r.refs k = _
    rw [h.refs, slotCount, slotCount, hslots]

lemma futexWakeQueue_sublist (w : FutexWorld) (key : FutexKey) (wakeMax : ℕ) (k : FutexKey) :
    ((FutexWorld.futexWakeQueue key wakeMax w).1.queue k).Sublist (w.queue k) := by
  induction wakeMax generalizing w with
  | zero => exact List.Sublist.refl _
  | succ wakeMax ih =>
    cases hq : w.queue key with
    | nil => simp [FutexWorld.futexWakeQueue, hq]
    | cons t rest =>
      simp only [FutexWorld.futexWakeQueue, hq]
      refine (ih _).trans ?_
      by_cases hk : k = key
      · subst hk
        simp [FutexWorld.wakeFirst, hq]
      · simp [FutexWorld.wakeFirst, hk]

lemma futexWakeQueue_futex (w : FutexWorld) (key : FutexKey) (wakeMax t : ℕ) :
    ((FutexWorld.futexWakeQueue key wakeMax w).1.wait t).map FutexWait.futex =
      (w.wait t).map FutexWait.futex := by
  induction wakeMax generalizing w with
  | zero => rfl
  | succ wakeMax ih =>
    cases hq : w.queue key with
    | nil => simp only [FutexWorld.futexWakeQueue, hq]
    | cons t' rest =>
      simp only [FutexWorld.futexWakeQueue, hq, ih]
      by_cases he : t = t'
      · subst he
        cases hx : w.wait t <;> simp [FutexWorld.wakeFirst, hx]
      · simp [FutexWorld.wakeFirst, he]

lemma Balanced.wakeQueue (h : Balanced held r) (key : FutexKey) (wakeMax : ℕ) :
    Balanced held { r with world := (FutexWorld.futexWakeQueue key wakeMax r.world).1 } :=
  h.onWorld (futexWakeQueue_sublist _ _ _) (futexWakeQueue_futex _ _ _)

lemma Balanced.reply (h : Balanced held r) (woken requeued : ℕ) :
    Balanced held { r with world := r.world.reply woken requeued } :=
  h.onWorld (fun _ => List.Sublist.refl _) fun _ => rfl

lemma Balanced.queues (h : Balanced held r) : Queues r.world.queue := by
  refine ⟨h.nodup, ?_⟩
  intro k k' t hk hk'
  obtain ⟨x, hx, rfl⟩ := h.linked k t hk
  obtain ⟨y, hy, rfl⟩ := h.linked k' t hk'
  obtain rfl : x = y := Option.some.inj (hx.symm.trans hy)
  rfl

lemma Balanced.moveFirst (h : Balanced held r) (hheld : 0 < held key)
    (hq : r.world.queue key = t :: rest) :
    Balanced held (r.moveFirst key key2 t rest) := by
  obtain ⟨x, hx, hf⟩ := h.linked key t (by simp [hq])
  have hpop : Queues (update r.world.queue key rest) := h.queues.popped hq
  have hoff : ∀ k, t ∉ update r.world.queue key rest k :=
    fun k hk => ((h.queues.mem_popped hq).1 hk).2 rfl
  have hmove := fun k => slotCount_replace h.finite (P := fun x => x.futex = k) hx
    { x with futex := key2 }
  have hkey := hmove key
  have hrefs := h.refs key
  have hnonempty : 0 < slotCount r.world.wait (fun x => x.futex = key) := by
    rw [Nat.pos_iff_ne_zero]
    intro hz
    simpa [hq] using h.queue_eq_nil hz
  refine ⟨h.finite.update t _, (hpop.pushed hoff).nodup, ?_, ?_, ?_⟩
  · intro k t' ht'
    rcases mem_pushed.1 ht' with hold | ⟨rfl, rfl⟩
    · obtain ⟨hmem, hne⟩ := (h.queues.mem_popped hq).1 hold
      obtain ⟨y, hy, hfy⟩ := h.linked k t' hmem
      exact ⟨y, by simp [FutexRefs.moveFirst, FutexWorld.moveFirst, hne, hy], hfy⟩
    · exact ⟨{ x with futex := k }, by simp [FutexRefs.moveFirst, FutexWorld.moveFirst, hx], rfl⟩
  · intro k
    have hk := hmove k
    have hrk := h.refs k
    simp only [FutexRefs.moveFirst, FutexWorld.moveFirst, hx, Option.map_some]
    simp only [hf] at hk
    by_cases h2 : k = key2
    · subst h2
      by_cases h1 : k = key
      · subst h1
        simp only [update_self, if_true] at hk ⊢
        omega
      · simp only [update_self, update_of_ne h1, Ne.symm h1, if_false, if_true] at hk ⊢
        omega
    · by_cases h1 : k = key
      · subst h1
        simp only [update_self, update_of_ne h2, Ne.symm h2, if_false, if_true] at hk ⊢
        omega
      · simp only [update_of_ne h1, update_of_ne h2, Ne.symm h1, Ne.symm h2, if_false] at hk ⊢
        omega
  · have hmany : ¬ r.refs key ≤ 1 := by omega
    simp [FutexRefs.moveFirst, h.intact, hmany]

lemma Balanced.requeueLoop (h : Balanced held r) (hheld : 0 < held key) (requeueMax : ℕ) :
    Balanced held (requeueLoop key key2 requeueMax r).1 := by
  induction requeueMax generalizing r with
  | zero => exact h
  | succ requeueMax ih =>
    cases hq : r.world.queue key with
    | nil => simpa only [FutexRefs.requeueLoop, hq] using h
    | cons t rest =>
      have hfirst : Balanced held (r.moveFirst key key2 t rest) := h.moveFirst hheld hq
      simp only [FutexRefs.requeueLoop, hq]
      split_ifs
      · exact hfirst
      · exact ih hfirst

lemma Balanced.enqueue (h : Balanced (held + Pi.single key 1) r) (ht : r.world.wait t = none)
    (hx : x.futex = key) : Balanced held { r with world := r.world.enqueue t x } := by
  subst hx
  have hnot : ∀ k, t ∉ r.world.queue k := by
    intro k hk
    obtain ⟨y, hy, -⟩ := h.linked k t hk
    rw [ht] at hy
    cases hy
  refine ⟨h.finite.update t _, (h.queues.pushed hnot).nodup, ?_, ?_, h.intact⟩
  · intro k t' ht'
    rcases mem_pushed.1 ht' with hmem | ⟨rfl, rfl⟩
    · have hne : t' ≠ t := fun he => hnot k (he ▸ hmem)
      obtain ⟨y, hy, hfy⟩ := h.linked k t' hmem
      exact ⟨y, by simp [FutexWorld.enqueue, hne, hy], hfy⟩
    · exact ⟨x, by simp [FutexWorld.enqueue], rfl⟩
  · intro k
    have hfill := slotCount_fill h.finite (P := fun x => x.futex = k) ht x
    have hrefs := h.refs k
    simp only [FutexWorld.enqueue, hfill]
    rw [hrefs, Pi.add_apply]
    by_cases hk : x.futex = k
    · subst hk
      simp only [Pi.single_eq_same, if_true]
      omega
    · simp only [hk, Pi.single_eq_of_ne (Ne.symm hk), if_false]
      omega

lemma Balanced.leave (h : Balanced held r) (hx : r.world.wait t = some x) :
    Balanced (held + Pi.single x.futex 1) { r with world := r.world.leave t } := by
  refine ⟨h.finite.update t none, ?_, ?_, ?_, h.intact⟩
  · exact fun k => (h.nodup k).erase t
  · intro k t' ht'
    obtain ⟨hne, hmem⟩ := ((h.nodup k).mem_erase_iff).1 ht'
    obtain ⟨y, hy, hfy⟩ := h.linked k t' hmem
    exact ⟨y, by simp [FutexWorld.leave, hne, hy], hfy⟩
  · intro k
    have hclear := slotCount_clear h.finite (P := fun x => x.futex = k) hx
    have hrefs := h.refs k
    simp only [FutexWorld.leave, Pi.add_apply]
    by_cases hk : x.futex = k
    · subst hk
      simp only [Pi.single_eq_same, if_true] at hclear ⊢
      omega
    · simp only [hk, Pi.single_eq_of_ne (Ne.symm hk), if_false] at hclear ⊢
      omega

lemma Balanced.futexWait (h : Balanced held r) (ht : r.world.wait t = none) (key : FutexKey)
    (val : BitVec 32) (timeout : Option ℤ) (now : ℤ) (pipes : Bool) :
    Balanced held (r.futexWait t key val timeout now pipes) := by
  have hget := h.futexGet key
  unfold FutexRefs.futexWait
  simp only
  split_ifs with hok
  · obtain ⟨hm, rfl⟩ := hok
    simp only [FutexWorld.futexWait, hm, ne_eq, not_true, if_false]
    exact hget.enqueue ht rfl
  · have hret : ∃ err, r.world.futexWait t key val timeout now pipes = r.world.ret err false := by
      unfold FutexWorld.futexWait
      cases hm : r.world.mem key with
      | none => exact ⟨_, rfl⟩
      | some tmp =>
        simp only
        split_ifs with hv hp
        · exact ⟨_, rfl⟩
        · exact absurd ⟨by rw [hm, not_not.1 hv], hp⟩ hok
        · exact ⟨_, rfl⟩
    obtain ⟨err, hret⟩ := hret
    rw [hret]
    apply Balanced.futexPut
    exact hget.onWorld (fun _ => List.Sublist.refl _) fun _ => rfl

lemma Balanced.proceed (h : Balanced held r) (hx : r.world.wait t = some x) (o : FutexObs) :
    Balanced held (r.proceed t x o) := by
  unfold FutexRefs.proceed
  simp only
  have hsame : ∀ y : FutexWait, y.futex = x.futex → ∀ t',
      (update r.world.wait t (some y) t').map FutexWait.futex =
        (r.world.wait t').map FutexWait.futex := by
    intro y hy t'
    by_cases he : t' = t
    · subst he
      simp [hx, hy]
    · simp [he]
  have hcheck := FutexWorld.check_futex x (r.world.pipe t) (r.world.mem x.uaddr) o
  cases hp : x.phase with
  | leaving err =>
    simp only [FutexWorld.proceed, hp, FutexPhase.decided, if_true]
    apply Balanced.futexPut
    exact (h.leave hx).onWorld (fun _ => List.Sublist.refl _) fun _ => rfl
  | exiting =>
    simp only [FutexWorld.proceed, hp, FutexPhase.decided, if_true]
    exact (h.leave hx).futexPut
  | deadline | polling | exitCheck | signalCheck | valueCheck | stallCheck =>
    simp only [FutexWorld.proceed, hp, FutexPhase.decided, Bool.false_eq_true, if_false]
    exact h.onWorld (fun _ => List.Sublist.refl _) (hsame _ hcheck)

lemma Balanced.futexWake (h : Balanced held r) (key : FutexKey) (wakeMax : ℕ) :
    Balanced held (r.futexWake key wakeMax) :=
  (((h.futexGet key).wakeQueue key wakeMax).reply _ 0).futexPut

lemma Balanced.futexRequeue (h : Balanced held r) (key : FutexKey) (wakeMax requeueMax : ℕ)
    (requeueKey : FutexKey) : Balanced held (r.futexRequeue key wakeMax requeueMax requeueKey) := by
  have hboth := ((h.futexGet key).wakeQueue key wakeMax).futexGet requeueKey
  have hheld : 0 < (held + Pi.single key 1 + Pi.single requeueKey 1 : FutexKey → ℕ) key := by
    simp
  exact ((hboth.requeueLoop hheld requeueMax).futexPut.futexPut).reply _ _

lemma Balanced.futexWakeOpEnd (h : Balanced held r) (t : ℕ) (op : FutexWakeOp) :
    Balanced held (r.futexWakeOpEnd t op) := by
  have hfirst := (h.futexGet op.uaddr).wakeQueue op.uaddr op.wakeMax1
  unfold FutexRefs.futexWakeOpEnd FutexWorld.futexWakeOpEnd
  cases op.cmpTrue with
  | true =>
    have hsecond := ((hfirst.futexGet op.uaddr2).wakeQueue op.uaddr2 op.wakeMax2).futexPut
    exact hsecond.futexPut.onWorld (fun _ => List.Sublist.refl _) fun _ => rfl
  | false => exact hfirst.futexPut.onWorld (fun _ => List.Sublist.refl _) fun _ => rfl

lemma Balanced.step (h : Balanced held r) (act : FutexAct) : Balanced held (r.step act) := by
  cases act with
  | store key word => exact h.onWorld (fun _ => List.Sublist.refl _) fun _ => rfl
  | wait t key val timeout now pipes =>
    simp only [FutexRefs.step]
    split_ifs with hfree
    · exact h.futexWait hfree.1 key val timeout now pipes
    · exact h
  | proceed t o =>
    simp only [FutexRefs.step]
    cases hx : r.world.wait t with
    | none   => exact h
    | some x => exact h.proceed hx o
  | wake key wakeMax => exact h.futexWake key wakeMax
  | requeue key wakeMax requeueMax requeueKey expected =>
    cases expected with
    | none => exact h.futexRequeue key wakeMax requeueMax requeueKey
    | some expected =>
      simp only [FutexRefs.step, FutexRefs.futexCmpRequeue]
      split_ifs
      · exact h.futexRequeue key wakeMax requeueMax requeueKey
      · exact (h.futexGet key).futexPut
  | wakeOp t key wakeMax1 key2 wakeMax2 val3 =>
    simp only [FutexRefs.step]
    split_ifs
    · unfold FutexWorld.futexWakeOpBegin
      cases (r.world.mem key2).bind (futexOp val3) with
      | none => exact h
      | some p => exact h.onWorld (fun _ => List.Sublist.refl _) fun _ => rfl
    · exact h
  | wakeOpEnd t =>
    simp only [FutexRefs.step]
    cases r.world.op t with
    | none    => exact h
    | some op => exact h.futexWakeOpEnd t op

lemma balanced_run (acts : List FutexAct) : Balanced 0 (run acts) :=
  List.foldlRecOn acts _ balanced_init fun _ h act _ => h.step act

/-! ### The futexes without their references -/

lemma requeueLoop_world (key key2 : FutexKey) (requeueMax : ℕ) (r : FutexRefs) :
    FutexWorld.requeueLoop key key2 requeueMax r.world =
      ((requeueLoop key key2 requeueMax r).1.world, (requeueLoop key key2 requeueMax r).2) := by
  induction requeueMax generalizing r with
  | zero => rfl
  | succ requeueMax ih =>
    cases hq : r.world.queue key with
    | nil => simp only [FutexWorld.requeueLoop, requeueLoop, hq]
    | cons t rest =>
      have hnext := ih (r.moveFirst key key2 t rest)
      have hworld : (r.moveFirst key key2 t rest).world = r.world.moveFirst key key2 t rest := rfl
      rw [hworld] at hnext
      simp only [FutexWorld.requeueLoop, requeueLoop, hq, hnext]
      split_ifs <;> rfl

lemma futexRequeue_world (r : FutexRefs) (key : FutexKey) (wakeMax requeueMax : ℕ)
    (requeueKey : FutexKey) : (r.futexRequeue key wakeMax requeueMax requeueKey).world =
      r.world.futexRequeue key wakeMax requeueMax requeueKey := by
  have hloop := requeueLoop_world key requeueKey requeueMax
    (({ r.futexGet key with world := (FutexWorld.futexWakeQueue key wakeMax r.world).1 } :
      FutexRefs).futexGet requeueKey)
  have hworld : (({ r.futexGet key with
      world := (FutexWorld.futexWakeQueue key wakeMax r.world).1 } :
      FutexRefs).futexGet requeueKey).world =
        (FutexWorld.futexWakeQueue key wakeMax r.world).1 := rfl
  rw [hworld] at hloop
  simp only [FutexWorld.futexRequeue, hloop]
  rfl

lemma step_world (r : FutexRefs) (act : FutexAct) : (r.step act).world = r.world.step act := by
  cases act with
  | store key word => rfl
  | wait t key val timeout now pipes =>
    simp only [step, FutexWorld.step]
    split_ifs
    · unfold futexWait
      simp only
      split_ifs <;> rfl
    · rfl
  | proceed t o =>
    simp only [step, FutexWorld.step]
    cases r.world.wait t with
    | none => rfl
    | some x =>
      simp only [proceed]
      split_ifs <;> rfl
  | wake key wakeMax => rfl
  | requeue key wakeMax requeueMax requeueKey expected =>
    cases expected with
    | none => exact r.futexRequeue_world key wakeMax requeueMax requeueKey
    | some expected =>
      simp only [step, FutexWorld.step, futexCmpRequeue, FutexWorld.futexCmpRequeue]
      split_ifs
      · exact r.futexRequeue_world key wakeMax requeueMax requeueKey
      · rfl
  | wakeOp t key wakeMax1 key2 wakeMax2 val3 =>
    simp only [step, FutexWorld.step]
    split_ifs <;> rfl
  | wakeOpEnd t =>
    simp only [step, FutexWorld.step]
    cases r.world.op t <;> rfl

/-- The waits on a futex that are off its queue, because they have been woken. -/
noncomputable def returning (r : FutexRefs) (k : FutexKey) : ℕ :=
  slotCount (fun t => if t ∈ r.world.queue k then none else r.world.wait t)
    fun x => x.futex = k

lemma Balanced.slotCount_queue (h : Balanced held r) (k : FutexKey) :
    slotCount r.world.wait (fun x => x.futex = k) = (r.world.queue k).length + r.returning k := by
  have hsplit : slots r.world.wait (fun x => x.futex = k) = ↑(r.world.queue k).toFinset ∪
      slots (fun t => if t ∈ r.world.queue k then none else r.world.wait t)
        fun x => x.futex = k := by
    ext t
    by_cases ht : t ∈ r.world.queue k
    · simpa [mem_slots, ht] using h.linked k t ht
    · simp [mem_slots, ht]
  have hdisjoint : Disjoint (↑(r.world.queue k).toFinset : Set ℕ)
      (slots (fun t => if t ∈ r.world.queue k then none else r.world.wait t)
        fun x => x.futex = k) := by
    rw [Set.disjoint_left]
    intro t ht
    have hmem : t ∈ r.world.queue k := by simpa using ht
    simp [mem_slots, hmem]
  have hfinite := h.finite.slots fun x => x.futex = k
  rw [hsplit] at hfinite
  rw [slotCount, hsplit, Set.ncard_union_eq hdisjoint (Set.finite_union.1 hfinite).1
    (Set.finite_union.1 hfinite).2, Set.ncard_coe_finset, List.toFinset_card_of_nodup (h.nodup k)]
  rfl

open FutexWorld (RequeueExact) in
/-- In every run no waiter is queued twice, the references of a futex are its queued waiters and
the woken ones that have not returned, and no assertion fails. A requeue in any state that a run
reaches is exact if and only if it moves no waiter twice; with an expected word it does the same
or nothing. -/
theorem futexRequeue_exact_iff (acts : List FutexAct) :
    (∀ k, ((run acts).world.queue k).Nodup) ∧ (run acts).world.Linked ∧
    (∀ k, (run acts).refs k = ((run acts).world.queue k).length + (run acts).returning k) ∧
    (run acts).failed = false ∧
    ∀ key wakeMax requeueMax key2,
      (RequeueExact (run acts).world
          ((run acts).step (.requeue key wakeMax requeueMax key2 none)).world
          key wakeMax requeueMax key2 ↔
        (run acts).world.RequeueOnce key wakeMax requeueMax key2) ∧
      ∀ expected, ((run acts).step (.requeue key wakeMax requeueMax key2 (some expected))).world =
        if (run acts).world.mem key = some expected then
          ((run acts).step (.requeue key wakeMax requeueMax key2 none)).world
        else (run acts).world := by
  have h := balanced_run acts
  refine ⟨h.nodup, h.linked, ?_, h.intact, ?_⟩
  · intro k
    simpa using (h.refs k).trans (congrArg (· + 0) (h.slotCount_queue k))
  · intro key wakeMax requeueMax key2
    simp only [step_world]
    constructor
    · constructor
      · exact FutexWorld.requeueOnce_of_exact h.linked (h.nodup key)
      · exact FutexWorld.futexRequeue_exact h.linked (h.nodup key)
    · intro expected
      rfl

/-- Two waiters are requeued to their own queue with a limit of three: three are counted. -/
theorem futexRequeue_self_miscounts :
    ¬ ∀ acts key wakeMax requeueMax key2, FutexWorld.RequeueExact (run acts).world
      ((run acts).step (.requeue key wakeMax requeueMax key2 none)).world
      key wakeMax requeueMax key2 := by
  intro h
  have hreply := (h [.wait 1 ⟨0, 0⟩ 0 none 0 true, .wait 2 ⟨0, 0⟩ 0 none 0 true]
    ⟨0, 0⟩ 0 3 ⟨0, 0⟩).reply
  revert hreply
  decide

end FutexRefs

end ShellBox
