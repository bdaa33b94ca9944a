import ShellBox.Asbestos.BlockStoreRuns
import ShellBox.Asbestos.Dispatch

/-!
# Threads that run translated code

The threads of an address space share its block store. A thread in `cpu_step_to_interrupt` holds
`jetsam_lock` for reading, and the list of jetsam is freed under the lock for writing. What a thread
keeps from one call to the next are its two caches, and whether these are of use is told by the
generation. Steps under `lock`, and looks at the generation, are one step each.
-/

namespace ShellBox

open Function

/-- Where a thread is in `cpu_step_to_interrupt`. -/
inductive JitPhase where
  | outside
  /-- At the top of the loop. -/
  | top
  /-- The generation has been looked at. -/
  | lookup
  /-- The block of the next round is found. -/
  | found (b : BlockId)
  /-- In `fiber_enter`, with `_pc` in the code of a block. -/
  | running (b : BlockId)

def JitPhase.block : JitPhase → Option BlockId
  | .found b   => some b
  | .running b => some b
  | _          => none

/-- The pointers to blocks in a thread's TLB and frame. An entry of `ret_cache` points into the code
of the block whose call it remembers. -/
structure JitThread where
  phase : JitPhase
  blockCache : ℕ → Option BlockId
  blockCacheGen : ℕ
  retCache : ℕ → Option BlockId
  lastBlock : Option BlockId

namespace JitThread

/-- `tlb_refresh` where the thread comes from another address space. -/
def fresh : JitThread := ⟨.outside, fun _ => none, 0, fun _ => none, none⟩

def clear (t : JitThread) (s : Asbestos) : JitThread :=
  { t with
    blockCache := fun _ => none
    blockCacheGen := s.invalidateGen
    retCache := fun _ => none }

/-- The look at the generation. -/
def sync (t : JitThread) (s : Asbestos) : JitThread :=
  if t.blockCacheGen ≠ s.invalidateGen then t.clear s else t

def enter (t : JitThread) (s : Asbestos) : JitThread :=
  { t.sync s with lastBlock := none, phase := .top }

/-- After a crash, or where the page table has changed. -/
def flush (t : JitThread) (s : Asbestos) : JitThread :=
  { t.clear s with lastBlock := none, phase := .top }

/-- The entry of the cache for `ip`, if that is the block at `ip`. -/
def hit (t : JitThread) (s : Asbestos) (ip : BitVec 64) : Option BlockId :=
  (t.blockCache (fiberCacheHash ip)).filter fun b => s.addr b = ip

def store (t : JitThread) (ip : BitVec 64) (b : BlockId) : JitThread :=
  { t with blockCache := update t.blockCache (fiberCacheHash ip) (some b), phase := .found b }

/-- `fiber_enter`, and transitions from one block to the next in it. -/
def goTo (t : JitThread) (b : BlockId) : JitThread :=
  { t with phase := .running b, lastBlock := some b }

end JitThread

structure JitSystem where
  store : Asbestos
  thread : ℕ → JitThread

namespace JitSystem

def start : JitSystem := ⟨.asbestosNew, fun _ => .fresh⟩

def set (w : JitSystem) (τ : ℕ) (t : JitThread) : JitSystem :=
  { w with thread := update w.thread τ t }

/-- The steps of thread `τ` in the loop, then in gadgets, and what any thread may do to the store.
`new` is the block that is compiled where there is none. -/
inductive Step (w : JitSystem) : JitSystem → Prop where
  | attach (τ : ℕ) (hp : (w.thread τ).phase = .outside) : Step w (w.set τ .fresh)
  | enter (τ : ℕ) (hp : (w.thread τ).phase = .outside) :
      Step w (w.set τ ((w.thread τ).enter w.store))
  | sync (τ : ℕ) (hp : (w.thread τ).phase = .top) :
      Step w (w.set τ { (w.thread τ).sync w.store with phase := .lookup })
  | hit (τ : ℕ) (ip : BitVec 64) (b : BlockId) (hp : (w.thread τ).phase = .lookup)
      (hh : (w.thread τ).hit w.store ip = some b) :
      Step w (w.set τ { w.thread τ with phase := .found b })
  | miss (τ : ℕ) (new : FiberBlock) (hp : (w.thread τ).phase = .lookup)
      (hh : (w.thread τ).hit w.store new.addr = none) :
      Step w ({ w with store := (w.store.findOrCompile new).2 }.set τ
        ((w.thread τ).store new.addr (w.store.findOrCompile new).1))
  | chain (τ : ℕ) (b last : BlockId) (hp : (w.thread τ).phase = .found b)
      (hl : (w.thread τ).lastBlock = some last) :
      Step w ({ w with store := w.store.chain last b }.set τ ((w.thread τ).goTo b))
  | unchained (τ : ℕ) (b : BlockId) (hp : (w.thread τ).phase = .found b) :
      Step w (w.set τ ((w.thread τ).goTo b))
  | jump (τ : ℕ) (b c : BlockId) (i : Fin 2) (hp : (w.thread τ).phase = .running b)
      (hj : w.store.jumpIp b i = some (.chained c)) : Step w (w.set τ ((w.thread τ).goTo c))
  | call (τ : ℕ) (b : BlockId) (k : ℕ) (hp : (w.thread τ).phase = .running b) :
      Step w (w.set τ { w.thread τ with retCache := update (w.thread τ).retCache k (some b) })
  | ret (τ : ℕ) (b c d : BlockId) (k : ℕ) (hp : (w.thread τ).phase = .running b)
      (hr : (w.thread τ).retCache k = some d) (hj : w.store.jumpIp d 0 = some (.chained c)) :
      Step w (w.set τ ((w.thread τ).goTo c))
  | retUnchained (τ : ℕ) (b d : BlockId) (k : ℕ) (hp : (w.thread τ).phase = .running b)
      (hr : (w.thread τ).retCache k = some d) (hj : ∀ c, w.store.jumpIp d 0 ≠ some (.chained c)) :
      Step w (w.set τ { w.thread τ with phase := .top, lastBlock := some d })
  | back (τ : ℕ) (b : BlockId) (hp : (w.thread τ).phase = .running b) :
      Step w (w.set τ { w.thread τ with phase := .top })
  | flush (τ : ℕ) (hp : (w.thread τ).phase = .top) :
      Step w (w.set τ ((w.thread τ).flush w.store))
  | leave (τ : ℕ) (hp : (w.thread τ).phase = .top ∨ (w.thread τ).phase = .lookup) :
      Step w (w.set τ { w.thread τ with phase := .outside })
  | invalidatePage (p : ℕ) : Step w { w with store := w.store.asbestosInvalidatePage p }
  | invalidateRange (start stop : ℕ) :
      Step w { w with store := w.store.asbestosInvalidateRange start stop }
  | invalidateAll : Step w { w with store := w.store.asbestosInvalidateAll }
  | clean (hw : ∀ τ, (w.thread τ).phase = .outside) :
      Step w { w with store := w.store.fiberFreeJetsam }

/-- Where a thread has found a block, the slots of the last one that match it are for its
address. -/
def Apt (w : JitSystem) : Prop :=
  ∀ τ b last, (w.thread τ).phase = .found b → (w.thread τ).lastBlock = some last →
    w.store.Apt last b

/-- The states of runs in which only slots for the address of the block match. -/
inductive Run : JitSystem → Prop where
  | start : Run start
  | step {w w' : JitSystem} (hr : Run w) (ha : w.Apt) (hs : Step w w') : Run w'

end JitSystem

/-! ### The pointers of a thread -/

/-- What the caches of a thread point to. -/
def JitThread.Keeps (t : JitThread) (b : BlockId) : Prop :=
  (∃ k, t.blockCache k = some b) ∨ ∃ k, t.retCache k = some b

def JitThread.Points (t : JitThread) (b : BlockId) : Prop :=
  t.Keeps b ∨ t.phase.block = some b ∨ t.lastBlock = some b

namespace Asbestos

variable {s s' : Asbestos} {t : JitThread} {b c : BlockId}

/-- What a thread relies on: while the generation is that of its caches, these and the block it runs
are live, and in the loop nothing it points to is freed. -/
structure Serves (s : Asbestos) (t : JitThread) : Prop where
  gen : t.blockCacheGen ≤ s.invalidations
  live : t.blockCacheGen = s.invalidations → ∀ b, t.Keeps b ∨ t.phase.block = some b →
    s.fate b = .live
  held : t.phase ≠ .outside → ∀ b, t.Points b → s.Held b

/-- A later state, in which what was live still is, or the generation has moved. -/
structure Later (s s' : Asbestos) : Prop where
  intact : s'.Intact
  counted : s.Counted → s'.Counted
  gen : s.invalidations ≤ s'.invalidations
  live : s.invalidations = s'.invalidations → ∀ b, s.fate b = .live → s'.fate b = .live

lemma Serves.later (h : s.Serves t) (hl : s.Later s')
    (hheld : t.phase ≠ .outside → ∀ b, s.Held b → s'.Held b) : s'.Serves t where
  gen := h.gen.trans hl.gen
  live heq b hb := by
    have hgen : s.invalidations = s'.invalidations := le_antisymm hl.gen (heq ▸ h.gen)
    exact hl.live hgen b (h.live (heq.trans hgen.symm) b hb)
  held hp b hb := hheld hp b (h.held hp b hb)

lemma later_invalidates {lost : BlockId → Prop} (h : s.Invalidates s' lost)
    (hle : s.invalidations ≤ s'.invalidations) : s.Later s' where
  intact := h.intact
  counted := h.counted
  gen := hle
  live heq b hb := by
    by_cases hlost : lost b
    · exact absurd heq (Nat.ne_of_lt (h.counts_lt b hlost))
    · exact (h.kept b hlost).trans hb

lemma held_invalidates {lost : BlockId → Prop} (h : s.Invalidates s' lost) (hb : s.Held b) :
    s'.Held b := by
  by_cases hlost : lost b
  · exact Or.inr (h.gone b hlost)
  · rw [Held, h.kept b hlost]
    exact hb

lemma later_refl (h : s.Intact) : s.Later s := ⟨h, id, le_rfl, fun _ _ => id⟩

lemma findOrCompile_invalidations (s : Asbestos) (new : FiberBlock) :
    (s.findOrCompile new).2.invalidations = s.invalidations := by
  unfold findOrCompile
  cases s.fiberLookup new.addr with
  | some b => rfl
  | none => exact (grow_rest ((s.genEnd new).count s.nextBlock)).2.2.2.2.2.2

/-- Blocks that are found or compiled. -/
lemma findOrCompile_spec (h : s.Intact) (new : FiberBlock) :
    s.Later (s.findOrCompile new).2 ∧ (∀ b, s.Held b → (s.findOrCompile new).2.Held b) ∧
      (s.findOrCompile new).2.fate (s.findOrCompile new).1 = .live := by
  have hi := h.findOrCompile new
  have hc : s.Counted → (s.findOrCompile new).2.Counted := fun hc => hc.findOrCompile h new
  have hg := findOrCompile_invalidations s new
  unfold findOrCompile at hi hc hg ⊢
  cases hf : s.fiberLookup new.addr with
  | some b => exact ⟨later_refl h, fun _ => id, (h.lookup_iff.1 hf).1⟩
  | none =>
    rw [hf] at hi hc hg
    have hfate : ((s.genEnd new).fiberInsert s.nextBlock).fate =
        update s.fate s.nextBlock .live := fate_fiberInsert s new
    have hkept : ∀ b, s.fate b ≠ .unborn →
        ((s.genEnd new).fiberInsert s.nextBlock).fate b = s.fate b := by
      intro b hb
      rw [hfate, update_of_ne]
      rintro rfl
      exact hb h.fate_nextBlock
    refine ⟨⟨hi, hc, hg.ge, fun _ b hb => (hkept b (by simp [hb])).trans hb⟩, fun b hb => ?_, ?_⟩
    · rw [Held, hkept b (by rcases hb with hb | hb <;> simp [hb])]
      exact hb
    · rw [hfate, update_self]

lemma chain_fate (s : Asbestos) (last b : BlockId) : (s.chain last b).fate = s.fate ∧
    (s.chain last b).invalidations = s.invalidations := by
  have hslot : ∀ (s : Asbestos) i, (s.chainSlot last b i).fate = s.fate ∧
      (s.chainSlot last b i).invalidations = s.invalidations := by
    intro s i
    unfold chainSlot
    split
    · exact ⟨rfl, rfl⟩
    · split_ifs <;> exact ⟨rfl, rfl⟩
  unfold chain
  split_ifs
  · exact ⟨rfl, rfl⟩
  · exact ⟨(hslot _ 1).1.trans (hslot s 0).1, (hslot _ 1).2.trans (hslot s 0).2⟩

/-! ### The thread that takes the step -/

/-- A block whose pointer a thread may keep. -/
def Usable (s : Asbestos) (t : JitThread) (b : BlockId) : Prop :=
  (t.blockCacheGen = s.invalidations → s.fate b = .live) ∧ s.Held b

lemma Usable.dest (h : s.Usable t b) (hi : s.Intact) {i : Fin 2}
    (hj : s.jumpIp b i = some (.chained c)) : s.Usable t c :=
  ⟨fun hgen => hi.live_dest (h.1 hgen) hj, hi.held_dest h.2 hj⟩

namespace Serves

lemma fresh (s : Asbestos) : s.Serves .fresh where
  gen := Nat.zero_le _
  live _ b hb := by simp [JitThread.Keeps, JitThread.fresh, JitPhase.block] at hb
  held hp := absurd rfl hp

/-- After the look at the generation the caches are of use. -/
lemma sync (h : s.Serves t) (hg : s.invalidations < 2 ^ 32) :
    (t.sync s).blockCacheGen = s.invalidations ∧
      ∀ b, (t.sync s).Keeps b → s.fate b = .live := by
  have hgen : s.invalidateGen = s.invalidations := Nat.mod_eq_of_lt hg
  unfold JitThread.sync
  split_ifs with hstale
  · exact ⟨hgen, fun b hb => by simp [JitThread.Keeps, JitThread.clear] at hb⟩
  · rw [hgen, ne_eq, not_not] at hstale
    exact ⟨hstale, fun b hb => h.live hstale b (Or.inl hb)⟩

/-- A thread that is between two blocks, its caches being of use. -/
lemma between {t' : JitThread} (hgen : t'.blockCacheGen = s.invalidations)
    (hkeeps : ∀ b, t'.Keeps b → s.fate b = .live) (hblock : t'.phase.block = none)
    (hlast : ∀ b, t'.lastBlock = some b → s.Held b) : s.Serves t' where
  gen := hgen.le
  live _ b hb := by
    rcases hb with hb | hb
    · exact hkeeps b hb
    · rw [hblock] at hb
      cases hb
  held _ b hb := by
    rcases hb with hb | hb | hb
    · exact Or.inl (hkeeps b hb)
    · rw [hblock] at hb
      cases hb
    · exact hlast b hb

lemma usable (h : s.Serves t) (hp : t.phase ≠ .outside) (hb : t.Keeps b ∨ t.phase.block = some b) :
    s.Usable t b :=
  ⟨fun hgen => h.live hgen b hb, h.held hp b (hb.elim Or.inl fun hb => Or.inr (Or.inl hb))⟩

/-- A thread in the loop goes on with pointers it had, or that are as good. -/
lemma next (h : s.Serves t) (hp : t.phase ≠ .outside) {t' : JitThread}
    (hgen : t'.blockCacheGen = t.blockCacheGen)
    (hkeeps : ∀ b, t'.Keeps b → t.Keeps b ∨ s.Usable t b)
    (hblock : ∀ b, t'.phase.block = some b → s.Usable t b)
    (hlast : ∀ b, t'.lastBlock = some b → s.Held b) : s.Serves t' where
  gen := hgen ▸ h.gen
  live heq b hb := by
    rw [hgen] at heq
    rcases hb with hb | hb
    · exact (hkeeps b hb).elim (fun hb => h.live heq b (Or.inl hb)) fun hb => hb.1 heq
    · exact (hblock b hb).1 heq
  held _ b hb := by
    rcases hb with hb | hb | hb
    · exact (hkeeps b hb).elim (fun hb => h.held hp b (Or.inl hb)) And.right
    · exact (hblock b hb).2
    · exact hlast b hb

/-- It runs another block. -/
lemma goTo (h : s.Serves t) (hp : t.phase ≠ .outside) (hb : s.Usable t b) :
    s.Serves (t.goTo b) := by
  refine h.next hp rfl (fun _ => Or.inl) (fun c hc => ?_) fun c hc => ?_
  · cases hc
    exact hb
  · cases hc
    exact hb.2

/-- It is between two blocks, with its caches as they were. -/
lemma pause (h : s.Serves t) (hp : t.phase ≠ .outside) {phase : JitPhase}
    (hblock : phase.block = none) {last : Option BlockId} (hlast : ∀ b, last = some b → s.Held b) :
    s.Serves { t with phase, lastBlock := last } :=
  h.next hp rfl (fun _ => Or.inl) (fun b hb => by cases hblock.symm.trans hb) hlast

end Serves

end Asbestos

namespace JitSystem

open Asbestos

variable {w w' : JitSystem} {τ : ℕ} {t : JitThread} {s : Asbestos}

structure Safe (w : JitSystem) : Prop where
  intact : w.store.Intact
  counted : w.store.Counted
  serves : ∀ τ, w.store.Serves (w.thread τ)

/-- A step of one thread, with a later store. -/
lemma Safe.set (h : w.Safe) (hl : w.store.Later s) (hheld : ∀ b, w.store.Held b → s.Held b)
    (ht : s.Serves t) : ({ w with store := s }.set τ t : JitSystem).Safe where
  intact := hl.intact
  counted := hl.counted h.counted
  serves σ := by
    by_cases hσ : σ = τ
    · have hself : ({ w with store := s }.set τ t).thread τ = t := update_self ..
      rw [hσ, hself]
      exact ht
    · have hother : ({ w with store := s }.set τ t).thread σ = w.thread σ := update_of_ne hσ _ _
      rw [hother]
      exact (h.serves σ).later hl fun _ => hheld

lemma Safe.thread (h : w.Safe) (ht : w.store.Serves t) : (w.set τ t).Safe :=
  h.set (later_refl h.intact) (fun _ => id) ht

lemma Safe.discard (h : w.Safe) (ks : List ℕ) :
    ({ w with store := w.store.discardBuckets ks } : JitSystem).Safe := by
  have hi := invalidates_buckets h.intact ks
  have hlater := later_invalidates hi (invalidations_le_discardBuckets _ ks)
  exact {
    intact := hi.intact
    counted := hi.counted h.counted
    serves := fun σ => (h.serves σ).later hlater fun _ _ => held_invalidates hi }

lemma Safe.start : start.Safe where
  intact := intact_asbestosNew
  counted := ⟨fun b hb => absurd hb (Nat.not_lt_zero b), rfl, rfl⟩
  serves _ := Serves.fresh _

lemma Safe.step (h : w.Safe) (hg : w.store.invalidations < 2 ^ 32) (ha : w.Apt)
    (hs : Step w w') : w'.Safe := by
  cases hs with
  | attach τ hp => exact h.thread (Serves.fresh _)
  | enter τ hp =>
    obtain ⟨hgen, hlive⟩ := (h.serves τ).sync hg
    exact h.thread (.between hgen hlive rfl fun b hb => by cases hb)
  | sync τ hp =>
    obtain ⟨hgen, hlive⟩ := (h.serves τ).sync hg
    refine h.thread (.between hgen hlive rfl fun b hb => ?_)
    refine (h.serves τ).held (by simp [hp]) b (Or.inr (Or.inr ?_))
    unfold JitThread.sync at hb
    split_ifs at hb <;> exact hb
  | hit τ ip b hp hh =>
    have hin : (w.thread τ).phase ≠ .outside := by simp [hp]
    have hb : (w.thread τ).Keeps b := Or.inl ⟨_, (Option.filter_eq_some_iff.1 hh).1⟩
    refine h.thread ((h.serves τ).next hin rfl (fun _ => Or.inl) (fun c hc => ?_) fun c hc => ?_)
    · cases hc
      exact (h.serves τ).usable hin (Or.inl hb)
    · exact (h.serves τ).held hin c (Or.inr (Or.inr hc))
  | miss τ new hp hh =>
    have hin : (w.thread τ).phase ≠ .outside := by simp [hp]
    obtain ⟨hl, hheld, hlive⟩ := findOrCompile_spec h.intact new
    have hserves := (h.serves τ).later hl fun _ => hheld
    have hnew : (w.store.findOrCompile new).2.Usable (w.thread τ) (w.store.findOrCompile new).1 :=
      ⟨fun _ => hlive, Or.inl hlive⟩
    refine h.set hl hheld (hserves.next hin rfl (fun c hc => ?_) (fun c hc => ?_) fun c hc => ?_)
    · rcases hc with ⟨k, hk⟩ | hk
      · simp only [JitThread.store, update_apply] at hk
        split_ifs at hk
        · cases hk
          exact Or.inr hnew
        · exact Or.inl (Or.inl ⟨k, hk⟩)
      · exact Or.inl (Or.inr hk)
    · cases hc
      exact hnew
    · exact hserves.held hin c (Or.inr (Or.inr hc))
  | chain τ b last hp hl =>
    have hin : (w.thread τ).phase ≠ .outside := by simp [hp]
    have hb : (w.thread τ).phase.block = some b := by rw [hp]; rfl
    have hheld := (h.serves τ).held hin
    obtain ⟨hfate, hinv⟩ := chain_fate w.store last b
    have hlater : w.store.Later (w.store.chain last b) := {
      intact := h.intact.chain (hheld last (Or.inr (Or.inr hl))) (hheld b (Or.inr (Or.inl hb)))
        (ha τ b last hp hl)
      counted := Counted.chain
      gen := hinv.ge
      live := fun _ c hc => hfate ▸ hc }
    have hsame : ∀ c, w.store.Held c → (w.store.chain last b).Held c := by
      intro c hc
      rw [Held, hfate]
      exact hc
    have hserves := (h.serves τ).later hlater fun _ => hsame
    exact h.set hlater hsame (hserves.goTo hin (hserves.usable hin (Or.inr hb)))
  | unchained τ b hp =>
    have hin : (w.thread τ).phase ≠ .outside := by simp [hp]
    exact h.thread ((h.serves τ).goTo hin ((h.serves τ).usable hin (Or.inr (by rw [hp]; rfl))))
  | jump τ b c i hp hj =>
    have hin : (w.thread τ).phase ≠ .outside := by simp [hp]
    have hb := (h.serves τ).usable hin (Or.inr (show _ = some b by rw [hp]; rfl))
    exact h.thread ((h.serves τ).goTo hin (hb.dest h.intact hj))
  | call τ b k hp =>
    have hin : (w.thread τ).phase ≠ .outside := by simp [hp]
    have hb := (h.serves τ).usable hin (Or.inr (show _ = some b by rw [hp]; rfl))
    refine h.thread ((h.serves τ).next hin rfl (fun c hc => ?_) (fun c hc => ?_) fun c hc => ?_)
    · rcases hc with hk | ⟨j, hj⟩
      · exact Or.inl (Or.inl hk)
      · simp only [update_apply] at hj
        split_ifs at hj
        · cases hj
          exact Or.inr hb
        · exact Or.inl (Or.inr ⟨j, hj⟩)
    · exact (h.serves τ).usable hin (Or.inr hc)
    · exact (h.serves τ).held hin c (Or.inr (Or.inr hc))
  | ret τ b c d k hp hr hj =>
    have hin : (w.thread τ).phase ≠ .outside := by simp [hp]
    have hd := (h.serves τ).usable hin (Or.inl (Or.inr ⟨k, hr⟩))
    exact h.thread ((h.serves τ).goTo hin (hd.dest h.intact hj))
  | retUnchained τ b d k hp hr hj =>
    have hin : (w.thread τ).phase ≠ .outside := by simp [hp]
    have hd := (h.serves τ).usable hin (Or.inl (Or.inr ⟨k, hr⟩))
    exact h.thread ((h.serves τ).pause hin rfl fun c hc => by cases hc; exact hd.2)
  | back τ b hp =>
    have hin : (w.thread τ).phase ≠ .outside := by simp [hp]
    exact h.thread ((h.serves τ).pause hin rfl fun c hc =>
      (h.serves τ).held hin c (Or.inr (Or.inr hc)))
  | flush τ hp =>
    refine h.thread (.between (Nat.mod_eq_of_lt hg) (fun b hb => ?_) rfl fun b hb => by cases hb)
    simp [JitThread.Keeps, JitThread.flush, JitThread.clear] at hb
  | leave τ hp =>
    have hin : (w.thread τ).phase ≠ .outside := by rcases hp with hp | hp <;> simp [hp]
    exact h.thread ((h.serves τ).pause hin rfl fun c hc =>
      (h.serves τ).held hin c (Or.inr (Or.inr hc)))
  | invalidatePage p =>
    unfold asbestosInvalidatePage
    split_ifs
    · exact h
    · exact h.discard _
  | invalidateRange start stop => exact h.discard _
  | invalidateAll => exact h.discard (List.range 1024)
  | clean hw =>
    have hfate : ∀ c, w.store.fate c = .live → w.store.fiberFreeJetsam.fate c = .live := by
      intro c hc
      refine (if_neg fun hj => ?_).trans hc
      rw [h.intact.jetsam.2, hc] at hj
      cases hj
    have hlater : w.store.Later w.store.fiberFreeJetsam :=
      ⟨h.intact.fiberFreeJetsam, fun hc => hc.fiberFreeJetsam h.intact, le_rfl, fun _ => hfate⟩
    exact {
      intact := hlater.intact
      counted := hlater.counted h.counted
      serves := fun τ => (h.serves τ).later hlater fun hp => absurd (hw τ) hp }

lemma Step.invalidations_le (hs : Step w w') :
    w.store.invalidations ≤ w'.store.invalidations := by
  cases hs with
  | miss τ new hp hh => exact (findOrCompile_invalidations w.store new).ge
  | chain τ b last hp hl => exact (chain_fate w.store last b).2.ge
  | invalidatePage p =>
    unfold asbestosInvalidatePage
    split_ifs
    · exact le_rfl
    · exact invalidations_le_discardBuckets _ _
  | invalidateRange start stop => exact invalidations_le_discardBuckets _ _
  | invalidateAll => exact invalidations_le_discardBuckets _ (List.range 1024)
  | _ => exact le_rfl

/-- Every state of a run, until the generation comes round. -/
lemma Run.safe (hr : Run w) (hg : w.store.invalidations < 2 ^ 32) : w.Safe := by
  induction hr with
  | start => exact .start
  | step hr ha hs ih =>
    have hg' := hs.invalidations_le.trans_lt hg
    exact (ih hg').step hg' ha hs

/-- A run in which a thread compiles a block. -/
lemma exists_run (new : FiberBlock) :
    ∃ w, Run w ∧ w.store.invalidations < 2 ^ 32 ∧ (w.thread 0).phase = .found 0 ∧
      w.store.fate 0 = .live ∧ w.store.block 0 = new := by
  have hset : ∀ {w : JitSystem} {t : JitThread}, (∀ τ b, (w.thread τ).phase ≠ .found b) →
      (∀ b, t.phase ≠ .found b) → ∀ τ b, ((w.set 0 t).thread τ).phase ≠ .found b := by
    intro w t hw ht τ b hp
    by_cases hτ : τ = 0
    · subst hτ
      exact ht b hp
    · have hother : (w.set 0 t).thread τ = w.thread τ := update_of_ne hτ _ _
      exact hw τ b (hother ▸ hp)
  have hstart : ∀ τ b, (start.thread τ).phase ≠ .found b := fun τ b hp => by cases hp
  have hentered := hset (t := JitThread.fresh.enter asbestosNew) hstart fun b hp => by cases hp
  have hsynced := hset (t := { (JitThread.fresh.enter asbestosNew).sync asbestosNew with
    phase := .lookup }) hentered fun b hp => by cases hp
  have h₁ := Run.start.step (fun τ b _ hp => absurd hp (hstart τ b)) (.enter 0 rfl)
  have h₂ := h₁.step (fun τ b _ hp => absurd hp (hentered τ b)) (.sync 0 rfl)
  have h₃ := h₂.step (fun τ b _ hp => absurd hp (hsynced τ b)) (.miss 0 new rfl rfl)
  exact ⟨_, h₃, (by decide : (0 : ℕ) < 2 ^ 32), rfl, rfl, rfl⟩

/-- Four instructions that jump back to the first. -/
def loopBlock : FiberBlock :=
  ⟨0x1000, 0x100f, 48, 0x7f0000001000, fun i => if i = 0 then some 0x1000 else none⟩

/-! ### What holds in every state -/

/-- A thread in the loop or in a gadget points to no block that is freed, and from there no slot
leads to one. -/
theorem jitThreads_noDangling (hr : Run w) (hg : w.store.invalidations < 2 ^ 32) {τ : ℕ}
    (hp : (w.thread τ).phase ≠ .outside) {b : BlockId} (hb : (w.thread τ).Points b) :
    b ∉ w.store.freed ∧ ∀ i c, w.store.jumpIp b i = some (.chained c) → c ∉ w.store.freed := by
  have h := hr.safe hg
  have hfree : ∀ {c}, w.store.Held c → c ∉ w.store.freed := by
    intro c hc hf
    rw [h.intact.freed.2] at hf
    rcases hc with hc | hc <;> cases hc.symm.trans hf
  have hheld := (h.serves τ).held hp b hb
  exact ⟨hfree hheld, fun i c hj => hfree (h.intact.held_dest hheld hj)⟩

theorem jitThreads_noDangling_loop :
    ∃ w : JitSystem, w.Run ∧ (w.thread 0).Points 0 ∧ 0 ∉ w.store.freed := by
  obtain ⟨w, hr, hg, hp, -⟩ := exists_run loopBlock
  have hpoints : (w.thread 0).Points 0 := Or.inr (Or.inl (by rw [hp]; rfl))
  exact ⟨w, hr, hpoints, (jitThreads_noDangling hr hg (by simp [hp]) hpoints).1⟩

/-- A slot of a live block is as it was compiled, or leads to the live block of its address, and it
is on the list of a block once if it leads there, and else not. -/
theorem chaining_exact (hr : Run w) (hg : w.store.invalidations < 2 ^ 32) {b : BlockId}
    (hb : w.store.fate b = .live) (i : Fin 2) :
    (w.store.jumpIp b i = w.store.oldJumpIp b i ∨
      ∃ c, w.store.jumpIp b i = some (.chained c) ∧ w.store.fate c = .live ∧
        (w.store.block b).target i = some (w.store.addr c)) ∧
    ∀ c, (w.store.jumpsFrom i c).count b =
      if w.store.jumpIp b i = some (.chained c) then 1 else 0 := by
  have h := (hr.safe hg).intact
  refine ⟨h.slot b i hb, fun c => (h.jumps i b c).trans (if_congr ?_ rfl rfl)⟩
  rw [chainedTo_eq_some]
  exact and_iff_right hb

theorem chaining_exact_loop : ∃ w : JitSystem, w.Run ∧ w.store.fate 0 = .live ∧
    ∀ c, (w.store.jumpsFrom 0 c).count 0 =
      if w.store.jumpIp 0 0 = some (.chained c) then 1 else 0 := by
  obtain ⟨w, hr, hg, -, hlive, -⟩ := exists_run loopBlock
  exact ⟨w, hr, hlive, (chaining_exact hr hg hlive 0).2⟩

/-- The look at the hash table finds the live block of the address; there is at most one. -/
theorem fiberLookup_iff (hr : Run w) (hg : w.store.invalidations < 2 ^ 32) (addr : BitVec 64)
    (b : BlockId) :
    w.store.fiberLookup addr = some b ↔ w.store.fate b = .live ∧ w.store.addr b = addr :=
  (hr.safe hg).intact.lookup_iff

theorem fiberLookup_iff_loop :
    ∃ w : JitSystem, w.Run ∧ w.store.fiberLookup 0x1000 = some 0 := by
  obtain ⟨w, hr, hg, -, hlive, hblock⟩ := exists_run loopBlock
  exact ⟨w, hr, (fiberLookup_iff hr hg 0x1000 0).2 ⟨hlive, by rw [addr, hblock]; rfl⟩⟩

/-- An invalidation takes away the live blocks that begin or end on the pages, and on those that
share a list with them. A jump to such a block is as it was compiled, and any other as it was. -/
theorem asbestosInvalidateRange_exact (hr : Run w) (hg : w.store.invalidations < 2 ^ 32)
    (start stop : ℕ) :
    (∀ b, (w.store.asbestosInvalidateRange start stop).fate b = .live ↔ w.store.fate b = .live ∧
      ∀ p, start ≤ p → p < stop → ∀ i, w.store.pageOf b i % 1024 ≠ p % 1024) ∧
    ∀ b i, (w.store.asbestosInvalidateRange start stop).fate b = .live →
      (∀ c, w.store.jumpIp b i = some (.chained c) →
        (w.store.asbestosInvalidateRange start stop).fate c ≠ .live →
        (w.store.asbestosInvalidateRange start stop).jumpIp b i = w.store.oldJumpIp b i) ∧
      ((∀ c, w.store.jumpIp b i = some (.chained c) →
        (w.store.asbestosInvalidateRange start stop).fate c = .live) →
        (w.store.asbestosInvalidateRange start stop).jumpIp b i = w.store.jumpIp b i) := by
  have h := (hr.safe hg).intact
  have hi := invalidates_buckets h ((List.range' start (stop - start)).map pageBucket)
  refine ⟨fun b => ?_, fun b i hb => hi.jumpIp_eq hb⟩
  refine hi.live_iff.trans (and_congr_right fun hb => ?_)
  constructor
  · intro hall p hstart hstop i heq
    refine hall ⟨pageBucket p, List.mem_map_of_mem (List.mem_range'_1.2 ⟨hstart, by omega⟩), ?_⟩
    exact (onBucket_iff hb).2 ⟨i, heq⟩
  · rintro hall ⟨k, hk, hon⟩
    obtain ⟨p, hp, rfl⟩ := List.mem_map.1 hk
    obtain ⟨i, heq⟩ := (onBucket_iff hb).1 hon
    obtain ⟨hstart, hstop⟩ := List.mem_range'_1.1 hp
    exact hall p hstart (by omega) i heq

theorem asbestosInvalidateRange_exact_loop : ∃ w : JitSystem, w.Run ∧ w.store.fate 0 = .live ∧
    (w.store.asbestosInvalidateRange 1 2).fate 0 ≠ .live := by
  obtain ⟨w, hr, hg, -, hlive, hblock⟩ := exists_run loopBlock
  refine ⟨w, hr, hlive, fun hl => ?_⟩
  refine (((asbestosInvalidateRange_exact hr hg 1 2).1 0).1 hl).2 1 le_rfl (by decide) 0 ?_
  simp only [pageOf, addr, hblock]
  rfl

/-- The counters are those of the live blocks, and at the end every block that was compiled is freed
once. -/
theorem asbestosFree_balances (hr : Run w) (hg : w.store.invalidations < 2 ^ 32) :
    (w.store.numBlocks = w.store.liveBlocks.card ∧
      w.store.memUsed = ∑ b ∈ w.store.liveBlocks, (w.store.block b).used) ∧
    w.store.asbestosFree.freed.Perm (List.range w.store.nextBlock) := by
  have h := hr.safe hg
  exact ⟨⟨h.counted.numBlocks, h.counted.memUsed⟩, freed_asbestosFree h.intact h.counted⟩

theorem asbestosFree_balances_loop : ∃ w : JitSystem, w.Run ∧ w.store.fate 0 = .live ∧
    w.store.asbestosFree.freed.Perm (List.range w.store.nextBlock) := by
  obtain ⟨w, hr, hg, -, hlive, -⟩ := exists_run loopBlock
  exact ⟨w, hr, hlive, (asbestosFree_balances hr hg).2⟩

end JitSystem

end ShellBox
