import ShellBox.Kernel.Memory.Operations

/-!
# Lifetime of backing objects

Runs of memory operations over any number of address spaces, and what they do to the
objects behind the pages: an object's reference count is the number of its entries, and it
is freed, once, when the last of them goes.
-/

namespace ShellBox

open World

inductive MemOp where
  | mapLazy (s : ℕ) (r : PageRange) (flags : { f : Flags // f.IsMapFlags })
  | map (s : ℕ) (r : PageRange) (memory : Option (ℕ → UInt8)) (offset : ℕ)
      (flags : { f : Flags // f.IsMapFlags })
  | mapNothing (s : ℕ) (r : PageRange) (flags : { f : Flags // f.IsMapFlags })
  | unmap (s start pages : ℕ)
  | unmapAlways (s start pages : ℕ)
  | setFlags (s start pages : ℕ) (prot : Prot)
  | copyOnWrite (src dst : ℕ) (hne : src ≠ dst) (r : PageRange)
  | access (s addr : ℕ) (type : AccessType)
  | write (s addr : ℕ) (byte : UInt8)
  | markCode (s page : ℕ)
  | destroy (s : ℕ)

namespace MemOp

def step (w : World) : Host × MemOp → World
  | (h, mapLazy s r flags) => (ptMapLazy h s r flags w).1
  | (h, map s r memory offset flags) => (ptMap h s r.start r.pages memory offset flags.1 w).1
  | (h, mapNothing s r flags) => (ptMapNothing h s r.start r.pages flags.1 w).1
  | (h, unmap s start pages) => (ptUnmap h s start pages w).1
  | (h, unmapAlways s start pages) => ptUnmapAlways h s start pages w
  | (h, setFlags s start pages prot) => (ptSetFlags h s start pages prot.flags w).1
  | (h, copyOnWrite src dst _ r) => ptCopyOnWrite h src dst r.start r.pages w
  | (h, access s addr type) => (memPtr h s addr type w).1
  | (h, write s addr byte) => writeByte h s addr byte w
  | (_, markCode s page) => (mmuMarkCodePage s page w).1
  | (h, destroy s) => memDestroy h s w

/-- The slots whose mapping an operation may replace even if they are pinned. -/
def replaces : MemOp → Set (ℕ × ℕ)
  | map s r _ _ _ | mapNothing s r _ =>
    {k | ∃ q, r.start ≤ q ∧ q < r.start + r.pages ∧ k = (s, ptIndex q)}
  | unmap s start pages | unmapAlways s start pages =>
    {k | ∃ q, start ≤ q ∧ q < start + pages ∧ k = (s, ptIndex q)}
  | copyOnWrite _ dst _ _ => {k | k.1 = dst}
  | access s addr .writePtrace => {(s, ptIndex (page addr))}
  | destroy s => {k | k.1 = s}
  | _ => ∅

/-- The address spaces that may receive a second reference to a host page. -/
def copiesInto : MemOp → Set ℕ
  | copyOnWrite _ dst _ _ => {dst}
  | _ => ∅

def debugs : MemOp → Prop
  | access _ _ .writePtrace => True
  | _ => False

def scope (op : MemOp) (w : World) : Scope where
  replace := op.replaces
  into := op.copiesInto
  debug := op.debugs ∨ ¬ w.SharedPinned

end MemOp

structure World.Valid (w : World) : Prop where
  balanced : w.Balanced
  lawful : w.Lawful

lemma World.valid_init : World.init.Valid := ⟨balanced_init, lawful_init⟩

lemma Steps.valid {S : Scope} {n : ℤ} {w w' : World} (h : Steps S n w w')
    (hv : w.Valid) : w'.Valid := ⟨h.balanced hv.balanced, h.lawful hv.lawful⟩

lemma steps_mmuMarkCodePage {S : Scope} (s page : ℕ) (w : World) :
    Steps S 0 w (mmuMarkCodePage s page w).1 := by
  unfold mmuMarkCodePage
  rw [memPt_eq_slot]
  cases he : w.slot (s, ptIndex page) with
  | none => exact .refl w
  | some e =>
    simp only
    by_cases hc : e.flags.code = true
    · rw [if_pos hc]
      exact .refl w
    · rw [if_neg hc]
      refine (Steps.single (.flags w s page e _ he ?_ ?_ ?_ ?_)).trans₀ (steps_memChanged _ s)
      · simp [pCode]
      · simp [pCode]
      · simp [pCode]
      · intro hp hcow
        simp [pCode, hp.2] at hcow

lemma writeByte_eq (h : Host) (s addr : ℕ) (byte : UInt8) (w : World) :
    writeByte h s addr byte w = ((memPtr h s addr .write w).2.elim (memPtr h s addr .write w).1
      fun p => (memPtr h s addr .write w).1.store p byte) := by
  unfold writeByte
  generalize memPtr h s addr .write w = r
  obtain ⟨w', _ | p⟩ := r <;> rfl

lemma store_refStore (w : World) (p : HostPtr) (byte : UInt8) :
    (w.store p byte).refStore = w.refStore := by
  simp only [refStore, store_slot, RefStore.mk.injEq, true_and]
  refine ⟨?_, rfl⟩
  funext d
  by_cases hd : d = p.data
  · subst hd; simp [store, Function.comp_def]
  · simp [store, hd]

namespace MemOp

/-- Every operation is a sequence of elementary steps, followed by a store if it is a write. -/
theorem exists_steps (h : Host) (op : MemOp) {w : World} (hv : w.Valid) :
    ∃ n w', Steps (op.scope w) n w w' ∧
      (step w (h, op) = w' ∨
        ∃ s addr byte p, op = write s addr byte ∧ memPtr h s addr .write w = (w', some p) ∧
          step w (h, op) = w'.store p byte) := by
  cases op with
  | mapLazy s r flags =>
    refine ⟨0, _, ?_, Or.inl rfl⟩
    simp only [step, ptMapLazy]
    split_ifs
    · refine Steps.trans₀ (steps_setMem ?_) (steps_memChanged _ s)
      rfl
    · exact .refl w
  | map s r memory offset flags =>
    refine ⟨_, _, steps_ptMap hv.balanced (by have := r.fits; omega) ?_ (Or.inl flags.2),
      Or.inl rfl⟩
    exact fun q hle hlt e _ => Or.inl ⟨q, hle, hlt, rfl⟩
  | mapNothing s r flags =>
    refine ⟨_, _, steps_ptMapNothing flags.1 hv.balanced ?_ (Or.inl flags.2), Or.inl rfl⟩
    exact fun q hle hlt e _ => Or.inl ⟨q, hle, hlt, rfl⟩
  | unmap s start pages =>
    refine ⟨0, _, ?_, Or.inl rfl⟩
    simp only [step, ptUnmap]
    split_ifs
    · exact steps_ptUnmapAlways fun q hle hlt e _ => Or.inl ⟨q, hle, hlt, rfl⟩
    · exact .refl w
  | unmapAlways s start pages =>
    refine ⟨0, _, steps_ptUnmapAlways ?_, Or.inl rfl⟩
    exact fun q hle hlt e _ => Or.inl ⟨q, hle, hlt, rfl⟩
  | setFlags s start pages prot =>
    obtain ⟨n, hs, -⟩ := steps_ptSetFlags prot h s start pages hv.balanced
    exact ⟨n, _, hs, Or.inl rfl⟩
  | copyOnWrite src dst hne r =>
    have hmark : ¬ ((copyOnWrite src dst hne r).scope w).debug → w.SharedPinned :=
      fun hS => not_not.mp fun hm => hS (Or.inr hm)
    refine ⟨0, _, (ptCopyOnWrite_spec r.start r.pages hne ?_ ?_ hv.balanced hv.lawful hmark
      r.fits).1, Or.inl rfl⟩
    · exact fun i => rfl
    · exact rfl
  | access s addr type =>
    obtain ⟨n, hs, -⟩ := steps_memPtr (S := (access s addr type).scope w) (h := h) (s := s)
      addr type hv.balanced
      (by rintro rfl; exact ⟨rfl, Or.inl trivial⟩)
    exact ⟨n, _, hs, Or.inl rfl⟩
  | write s addr byte =>
    obtain ⟨n, hs, -⟩ := steps_memPtr (S := (write s addr byte).scope w) (h := h) (s := s)
      addr .write hv.balanced (by simp)
    refine ⟨n, _, hs, ?_⟩
    simp only [step, writeByte_eq]
    cases hp : (memPtr h s addr .write w).2 with
    | none => exact Or.inl rfl
    | some p => exact Or.inr ⟨s, addr, byte, p, rfl, Prod.ext rfl hp, rfl⟩
  | markCode s page => exact ⟨0, _, steps_mmuMarkCodePage s page w, Or.inl rfl⟩
  | destroy s => exact ⟨0, _, steps_memDestroy fun i => rfl, Or.inl rfl⟩

theorem valid_step {w : World} (op : Host × MemOp) (hv : w.Valid) : (step w op).Valid := by
  obtain ⟨n, w', hs, heq | ⟨s, addr, byte, p, -, -, heq⟩⟩ := exists_steps op.1 op.2 hv
  · exact heq ▸ hs.valid hv
  · obtain ⟨hb, hl⟩ := hs.valid hv
    refine heq ▸ ⟨?_, hl⟩
    rwa [World.Balanced, store_refStore]

theorem valid_run {w : World} (ops : List (Host × MemOp)) (hv : w.Valid) :
    (run step w ops).Valid := by
  induction ops generalizing w with
  | nil => exact hv
  | cons op ops ih => exact ih (valid_step op hv)

/-- Unless the debugger writes, no shared page is ever marked for a copy. -/
theorem sharedPinned_step {w : World} (op : Host × MemOp) (hv : w.Valid)
    (hop : ¬ op.2.debugs) (hw : w.SharedPinned) : (step w op).SharedPinned := by
  have hS : ¬ (op.2.scope w).debug := fun h => h.elim hop fun h => h hw
  obtain ⟨n, w', hs, heq | ⟨s, addr, byte, p, -, -, heq⟩⟩ := exists_steps op.1 op.2 hv
  · exact heq ▸ hs.sharedPinned hS hw
  · exact heq ▸ hs.sharedPinned hS hw

theorem sharedPinned_run {w : World} (ops : List (Host × MemOp)) (hv : w.Valid)
    (hops : ∀ op ∈ ops, ¬ op.2.debugs) (hw : w.SharedPinned) : (run step w ops).SharedPinned := by
  induction ops generalizing w with
  | nil => exact hw
  | cons op ops ih =>
    exact ih (valid_step op hv) (fun op' hop' => hops op' (List.mem_cons_of_mem _ hop'))
      (sharedPinned_step op hv (hops op List.mem_cons_self) hw)

theorem touched_step {w : World} (op : Host × MemOp) (hv : w.Valid) {d : DataId}
    (ht : w.refStore.Touched d) : (step w op).refStore.Touched d := by
  obtain ⟨n, w', hs, heq | ⟨s, addr, byte, p, -, -, heq⟩⟩ := exists_steps op.1 op.2 hv
  · exact heq ▸ hs.touched hv.balanced ht
  · rw [heq, store_refStore]
    exact hs.touched hv.balanced ht

theorem touched_run {w : World} (ops : List (Host × MemOp)) (hv : w.Valid) {d : DataId}
    (ht : w.refStore.Touched d) : (run step w ops).refStore.Touched d := by
  induction ops generalizing w with
  | nil => exact ht
  | cons op ops ih => exact ih (valid_step op hv) (touched_step op hv ht)

end MemOp

/-! ### Counts and frees over runs -/

def World.entriesOf (w : World) (d : DataId) : Set (ℕ × ℕ) :=
  {k | ∃ e, w.slot k = some e ∧ e.data = d}

lemma World.entriesOf_eq (w : World) (d : DataId) :
    w.entriesOf d = slots w.refStore.owner (· = d) := by
  ext k
  simp [entriesOf, mem_slots, refStore]

/-- In every reachable state the count of a live object is the number of its entries, no
entry refers to a freed object, no object is freed twice, and an object that has had an entry
has been freed exactly if it has none left. -/
theorem refcount_eq_entries (ops : List (Host × MemOp)) :
    let w := run MemOp.step World.init ops
    (∀ d x, w.data d = some x → (w.entriesOf d).Finite ∧ x.refcount = (w.entriesOf d).ncard) ∧
    (∀ k e, w.slot k = some e → (w.data e.data).isSome ∧ e.data ∉ w.freed) ∧
    w.freed.Nodup ∧
    ∀ n d, ((run MemOp.step World.init (ops.take n)).entriesOf d).Nonempty →
      (d ∈ w.freed ↔ w.entriesOf d = ∅) := by
  intro w
  have hv : w.Valid := MemOp.valid_run ops valid_init
  refine ⟨fun d x hx => ?_, fun k e he => ⟨hv.balanced.live he, fun hfreed => ?_⟩,
    hv.balanced.nodup, fun n d hne => ?_⟩
  · rw [entriesOf_eq]
    refine ⟨FiniteSlots.slots (RefStore.Balanced.finite hv.balanced) _, ?_⟩
    exact RefStore.Balanced.count_eq hv.balanced d x.refcount (by simp [refStore, hx])
  · have hdead := RefStore.Balanced.dead hv.balanced e.data hfreed
    have hlive := hv.balanced.live he
    simp only [refStore, Option.map_eq_none_iff] at hdead
    simp [hdead] at hlive
  · obtain ⟨k, e, he, hd⟩ := hne
    have ht : w.refStore.Touched d := by
      have := MemOp.touched_run (ops.drop n) (MemOp.valid_run (ops.take n) valid_init)
        (d := d) (Or.inl ⟨k, by simp [refStore, he, hd]⟩)
      rwa [← run_append, List.take_append_drop] at this
    rw [show d ∈ w.freed ↔ _ from RefStore.Balanced.freed_iff hv.balanced ht,
      Set.eq_empty_iff_forall_notMem]
    simp [entriesOf, refStore]

end ShellBox
