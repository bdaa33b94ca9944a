import ShellBox.Kernel.Memory.Frame
import ShellBox.Logic.Stamp

/-!
# What the change count of an address space promises

An operation that takes something away from a mapped page moves the change count: while the
count stands still, a mapped page keeps its host memory, stays writable if it was, and does
not become a code page. The one exception is `pt_set_flags`, which returns without
`mem_changed` when the host refuses a protection.
-/

namespace ShellBox

open Function World

variable {w w' : World} {h : Host} {s start pages page : ℕ}

structure PtEntry.Serves (e e' : PtEntry) : Prop where
  data : e'.data = e.data
  offset : e'.offset = e.offset
  write : e.flags.write = true → e'.flags.write = true
  cow : e.flags.cow = false → e'.flags.cow = false
  code : e.flags.code = false → e'.flags.code = false

lemma PtEntry.Serves.refl (e : PtEntry) : e.Serves e := ⟨rfl, rfl, id, id, id⟩

lemma PtEntry.Serves.trans {a b c : PtEntry} (h : a.Serves b) (h' : b.Serves c) : a.Serves c where
  data := h'.data.trans h.data
  offset := h'.offset.trans h.offset
  write := h'.write ∘ h.write
  cow := h'.cow ∘ h.cow
  code := h'.code ∘ h.code

namespace World

/-- The change count of an address space, `mmu->changes`. -/
def changes (s : ℕ) (w : World) : ℕ := (w.mem s).changes

def Serves (s : ℕ) (w w' : World) : Prop :=
  ∀ i e, w.slot (s, i) = some e → ∃ e', w'.slot (s, i) = some e' ∧ e.Serves e'

lemma Serves.trans {w₁ w₂ w₃ : World} (h : Serves s w₁ w₂) (h' : Serves s w₂ w₃) :
    Serves s w₁ w₃ := by
  intro i e he
  obtain ⟨e', he', hserves⟩ := h i e he
  obtain ⟨e'', he'', hserves'⟩ := h' i e' he'
  exact ⟨e'', he'', hserves.trans hserves'⟩

/-- The count moves forward, or every mapped page is served as before. -/
abbrev Kept (s : ℕ) (w w' : World) : Prop := Keeps (changes s) (Serves s) w w'

lemma Kept.trans {w₁ w₂ w₃ : World} (h : Kept s w₁ w₂) (h' : Kept s w₂ w₃) : Kept s w₁ w₃ :=
  Keeps.trans (R := Serves s) Serves.trans h h'

lemma Kept.of_slot (hc : changes s w' = changes s w)
    (hslot : ∀ i, w'.slot (s, i) = w.slot (s, i)) : Kept s w w' :=
  Keeps.of_rel hc fun i e he => ⟨e, (hslot i).trans he, .refl e⟩

lemma Kept.of_mem (hmem : w'.mem s = w.mem s) : Kept s w w' :=
  .of_slot (congrArg Mem.changes hmem) fun i => congrArg (fun m => m.pt.entry i) hmem

lemma Kept.refl (w : World) : Kept s w w := .of_mem rfl

lemma changes_memChanged (w : World) (s : ℕ) :
    changes s (w.memChanged s) = changes s w + 1 := by
  simp [changes, memChanged]

lemma changes_memChanged_le (w : World) (s' : ℕ) :
    changes s w ≤ changes s (w.memChanged s') := by
  by_cases hs : s = s'
  · subst hs
    rw [changes_memChanged]
    exact Nat.le_succ _
  · exact (congrArg Mem.changes (memChanged_mem hs w)).ge

lemma Kept.memChanged (h : changes s w ≤ changes s w') : Kept s w (w'.memChanged s) := by
  apply Keeps.of_lt
  rw [changes_memChanged]
  exact Nat.lt_succ_of_le h

lemma kept_memPtNew {e : PtEntry} (he : w.slot (s, ptIndex page) = none) (s' : ℕ) :
    Kept s' w (w.memPtNew s page e) := by
  refine Keeps.of_rel ?_ fun i e' he' => ⟨e', ?_, .refl e'⟩
  · by_cases hs : s' = s
    · subst hs
      simp [changes, World.memPtNew]
    · exact congrArg Mem.changes (setMem_of_ne _ _ _ hs)
  · rw [memPtNew_slot, update_of_ne, he']
    rintro heq
    simp [← heq, he'] at he

lemma kept_setFlags {e : PtEntry} {f : Flags} (he : w.slot (s, ptIndex page) = some e)
    (hserves : e.Serves { e with flags := f }) : Kept s w (w.setFlags s page f) := by
  refine Keeps.of_rel ?_ fun i e' he' => ?_
  · simp [changes, World.setFlags]
  · rw [setFlags_slot]
    by_cases hi : (s, i) = (s, ptIndex page)
    · obtain rfl : e = e' := Option.some.inj (he.symm.trans ((congrArg w.slot hi).symm.trans he'))
      exact ⟨{ e with flags := f }, by rw [hi, update_self, he]; rfl, hserves⟩
    · exact ⟨e', by rw [update_of_ne hi, he'], .refl e'⟩

end World

/-! ### Unmapping and mapping -/

lemma changes_unmapPage (s s' page : ℕ) (w : World) :
    changes s (unmapPage s' page w) = changes s w := by
  cases he : w.slot (s', ptIndex page) with
  | none => rw [unmapPage_none he]
  | some e =>
    rw [unmapPage_some he, changes, unrefData_mem, memPtDel]
    by_cases hs : s = s'
    · subst hs
      split_ifs <;> simp [changes]
    · rw [setMem_of_ne _ _ _ hs]
      split_ifs <;> rfl

lemma lt_changes_ptUnmapAlways (h : Host) (s start pages : ℕ) (w : World) :
    changes s w < changes s (ptUnmapAlways h s start pages w) := by
  unfold ptUnmapAlways
  rw [changes_memChanged, Nat.lt_succ_iff]
  refine forLoop_invariant (P := fun w' => changes s w ≤ changes s w') (fun i w' _ ih => ?_) _ _ ?_
  · rwa [changes_unmapPage]
  · simp [changes]

lemma kept_ptUnmapAlways (h : Host) (s s' start pages : ℕ) (w : World) :
    Kept s w (ptUnmapAlways h s' start pages w) := by
  by_cases hs : s = s'
  · subst hs
    exact Keeps.of_lt (lt_changes_ptUnmapAlways h s start pages w)
  · exact .of_mem (ptUnmapAlways_mem hs h start pages w)

lemma kept_mapPage (h : Host) (s s' : ℕ) (d : DataId) (start offset : ℕ) (flags : Flags)
    (page : ℕ) (w : World) : Kept s w (mapPage h s' d start offset flags page w) := by
  simp only [mapPage, unmap_before]
  have hunmap : Kept s w (if isMapped w s' page then ptUnmapAlways h s' page 1 w else w) := by
    split_ifs
    · exact kept_ptUnmapAlways h s s' page 1 w
    · exact .refl w
  refine hunmap.trans (.trans (.of_mem (congrFun (refData_mem _ _) s)) (kept_memPtNew ?_ s))
  rw [refData_slot, unmap_before_slot, update_self]

lemma kept_ptMap (h : Host) (s s' start pages : ℕ) (memory : Option (ℕ → UInt8)) (offset : ℕ)
    (flags : Flags) (w : World) : Kept s w (ptMap h s' start pages memory offset flags w).1 := by
  unfold ptMap
  cases memory with
  | none => exact .refl w
  | some bytes =>
    simp only
    split_ifs
    · refine forLoop_invariant (P := fun w' => Kept s w w') (fun i w' _ ih => ?_) _ _ ?_
      · exact ih.trans (kept_mapPage h s s' _ start offset flags i w')
      · exact .of_mem (congrFun (allocData_mem _ _) s)
    · exact .refl w

lemma kept_ptMapNothing (h : Host) (s s' start pages : ℕ) (flags : Flags) (w : World) :
    Kept s w (ptMapNothing h s' start pages flags w).1 := by
  unfold ptMapNothing
  split_ifs
  · exact .refl w
  · exact kept_ptMap h s s' start pages _ 0 _ w
  · exact .refl w

lemma kept_ptMapLazy (h : Host) (s s' : ℕ) (r : PageRange) (flags : { f : Flags // f.IsMapFlags })
    (w : World) : Kept s w (ptMapLazy h s' r flags w).1 := by
  unfold ptMapLazy
  simp only
  split_ifs
  · by_cases hs : s = s'
    · subst hs
      apply Kept.memChanged
      simp [changes]
    · exact .of_mem ((memChanged_mem hs _).trans (setMem_of_ne _ _ _ hs))
  · exact .refl w

/-! ### Protecting -/

/-- The host refuses no protection that the call takes `P_WRITE` away with. -/
def ProtectsFully (h : Host) (start pages : ℕ) (prot : Prot) : Prop :=
  prot.write = true ∨ ∀ q, start ≤ q → q < start + pages → h.protectOk q = true

lemma changes_setFlags (s s' page : ℕ) (f : Flags) (w : World) :
    changes s (w.setFlags s' page f) = changes s w := by
  by_cases hs : s = s'
  · subst hs
    simp [changes, World.setFlags]
  · exact congrArg Mem.changes (setMem_of_ne _ _ _ hs)

lemma lt_changes_setFlagsLoop {stop : ℕ} {flags : Flags} (fuel page : ℕ) {w : World}
    (hok : ∀ q, page ≤ q → q < stop → h.protectOk q = true) :
    changes s w < changes s (setFlagsLoop h s stop flags fuel page w).1 := by
  induction fuel generalizing page w with
  | zero => exact (changes_memChanged w s).symm ▸ Nat.lt_succ_self _
  | succ fuel ih =>
    unfold setFlagsLoop
    by_cases hlt : page < stop
    · rw [if_pos hlt]
      cases (w.mem s).pt.memPt page with
      | none =>
        simp only
        split_ifs
        · exact ih (page + 1) fun q hq => hok q (Nat.le_of_succ_le hq)
        · refine lt_of_le_of_lt (kept_ptMapNothing h s s page _ _ w).le (ih _ fun q hq => ?_)
          exact hok q (Nat.le_trans (Nat.le_add_right _ _) hq)
      | some e =>
        simp only [hok page le_rfl hlt, Bool.not_true, Bool.and_false, Bool.false_eq_true, if_false]
        refine lt_of_eq_of_lt (changes_setFlags s s page _ w).symm (ih (page + 1) fun q hq => ?_)
        exact hok q (Nat.le_of_succ_le hq)
    · rw [if_neg hlt]
      exact (changes_memChanged w s).symm ▸ Nat.lt_succ_self _

lemma kept_setFlagsLoop {stop : ℕ} {flags : Flags} (hwrite : flags.write = true)
    (hcow : flags.cow = false) (hcode : flags.code = false) (fuel page : ℕ) (w : World) :
    Kept s w (setFlagsLoop h s stop flags fuel page w).1 := by
  induction fuel generalizing page w with
  | zero => exact .memChanged le_rfl
  | succ fuel ih =>
    unfold setFlagsLoop
    by_cases hlt : page < stop
    · rw [if_pos hlt]
      cases he : (w.mem s).pt.memPt page with
      | none =>
        simp only
        split_ifs
        · exact ih (page + 1) w
        · exact (kept_ptMapNothing h s s page _ _ w).trans (ih _ _)
      | some e =>
        have hserves : e.Serves { e with flags := flags ||| (e.flags &&& pMetaFlags) } := by
          refine ⟨rfl, rfl, fun _ => ?_, fun h => ?_, fun h => ?_⟩
          · simp [hwrite]
          · simp [hcow, h]
          · simp [hcode, h]
        have hset := kept_setFlags he hserves
        simp only
        split_ifs
        · exact hset
        · exact hset.trans (ih (page + 1) _)
    · rw [if_neg hlt]
      exact .memChanged le_rfl

lemma setFlagsLoop_mem {s' stop : ℕ} {flags : Flags} (hs : s' ≠ s) (fuel page : ℕ) (w : World) :
    (setFlagsLoop h s stop flags fuel page w).1.mem s' = w.mem s' := by
  induction fuel generalizing page w with
  | zero => exact memChanged_mem hs w
  | succ fuel ih =>
    unfold setFlagsLoop
    by_cases hlt : page < stop
    · rw [if_pos hlt]
      cases (w.mem s).pt.memPt page with
      | none =>
        simp only
        split_ifs
        · exact ih (page + 1) w
        · exact (ih _ _).trans (ptMapNothing_mem hs w)
      | some e =>
        simp only
        split_ifs
        · exact setMem_of_ne _ _ _ hs
        · exact (ih (page + 1) _).trans (setMem_of_ne _ _ _ hs)
    · rw [if_neg hlt]
      exact memChanged_mem hs w

lemma kept_ptSetFlags (s s' start pages : ℕ) (prot : Prot) (w : World)
    (hprot : ProtectsFully h start pages prot ∨ s ≠ s') :
    Kept s w (ptSetFlags h s' start pages prot.flags w).1 := by
  unfold ptSetFlags
  split_ifs
  · by_cases hs : s = s'
    · subst hs
      rcases hprot.resolve_right (not_not.mpr rfl) with hwrite | hok
      · exact kept_setFlagsLoop hwrite rfl rfl _ _ w
      · exact Keeps.of_lt (lt_changes_setFlagsLoop _ _ hok)
    · exact .of_mem (setFlagsLoop_mem hs _ _ w)
  · exact .refl w

/-! ### Forking and destroying -/

lemma changes_copyPage_le (h : Host) (s src dst page : ℕ) (st : World × ℕ) :
    changes s st.1 ≤ changes s (copyPage h src dst page st).1 := by
  obtain ⟨w, n⟩ := st
  simp only [copyPage]
  cases (w.mem src).pt.memPt page with
  | none => exact le_rfl
  | some e =>
    have hnew : ∀ (v : World) (e' : PtEntry), changes s (v.memPtNew dst page e') = changes s v := by
      intro v e'
      by_cases hs : s = dst
      · subst hs
        simp [changes, World.memPtNew]
      · exact congrArg Mem.changes (setMem_of_ne _ _ _ hs)
    have href : ∀ v : World, changes s (v.refData e.data) = changes s v := fun v =>
      congrArg (fun mem => (mem s).changes) (refData_mem v e.data)
    simp only [hnew, href, changes_setFlags]
    exact (kept_ptUnmapAlways h s dst page 1 w).le

lemma copyPage_mem {s src dst page : ℕ} (hsrc : s ≠ src) (hdst : s ≠ dst) (st : World × ℕ) :
    (copyPage h src dst page st).1.mem s = st.1.mem s := by
  obtain ⟨w, n⟩ := st
  simp only [copyPage]
  cases (w.mem src).pt.memPt page with
  | none => rfl
  | some e =>
    simp only [memPtNew, setMem_of_ne _ _ _ hdst, refData_mem, World.setFlags,
      setMem_of_ne _ _ _ hsrc]
    exact ptUnmapAlways_mem hdst h page 1 w

lemma kept_ptCopyOnWrite (h : Host) (s src dst start pages : ℕ) (w : World) :
    Kept s w (ptCopyOnWrite h src dst start pages w) := by
  unfold ptCopyOnWrite
  -- the loop itself does not move the counts back, and leaves the other spaces alone
  have hloop : ∀ next : World × ℕ → ℕ → ℕ, ∃ st,
      forLoop next (copyPage h src dst) (start + pages) pages start (w, 0) = st ∧
        changes s w ≤ changes s st.1 ∧ (s ≠ src → s ≠ dst → st.1.mem s = w.mem s) := by
    intro next
    refine ⟨_, rfl, ?_⟩
    refine forLoop_invariant (P := fun st : World × ℕ => changes s w ≤ changes s st.1 ∧
      (s ≠ src → s ≠ dst → st.1.mem s = w.mem s)) ?_ _ _ ⟨le_rfl, fun _ _ => rfl⟩
    intro i st _ ih
    constructor
    · exact ih.1.trans (changes_copyPage_le h s src dst i st)
    · exact fun hsrc hdst => (copyPage_mem hsrc hdst st).trans (ih.2 hsrc hdst)
  obtain ⟨⟨w₁, n⟩, hst, hle, hmem⟩ := hloop fun st page => (st.1.mem src).pt.memNextPage page
  simp only [hst]
  generalize hw₂ : World.setMem _ dst _ = w₂
  have hle₂ : changes s w ≤ changes s w₂ := by
    subst hw₂
    by_cases hs : s = dst
    · subst hs
      simpa [changes] using hle
    · simpa [changes, setMem_of_ne _ _ _ hs] using hle
  by_cases hdst : s = dst
  · subst hdst
    exact .memChanged (hle₂.trans (changes_memChanged_le w₂ src))
  by_cases hsrc : s = src
  · subst hsrc
    exact (Kept.memChanged hle₂).trans (.of_mem (memChanged_mem hdst _))
  · refine .of_mem ?_
    rw [memChanged_mem hdst, memChanged_mem hsrc, ← hw₂, setMem_of_ne _ _ _ hdst]
    exact hmem hsrc hdst

lemma kept_memDestroy (h : Host) (s s' : ℕ) (w : World) : Kept s w (memDestroy h s' w) := by
  unfold memDestroy
  by_cases hs : s = s'
  · subst hs
    apply Keeps.of_lt
    simpa [changes] using lt_changes_ptUnmapAlways h s 0 memPages w
  · exact .of_mem ((setMem_of_ne _ _ _ hs).trans (ptUnmapAlways_mem hs h 0 memPages w))

/-! ### Translating -/

lemma kept_growStack (h : Host) (s s' page p : ℕ) (w : World) :
    Kept s w (growStack h s' page p w) :=
  (Kept.of_mem rfl : Kept s w (w.addAnon _)).trans (kept_ptMapNothing h s s' page _ _ _)

lemma kept_mapReserved (h : Host) (s s' page : ℕ) (w : World) :
    Kept s w (mapReserved h s' page w).1 := by
  unfold mapReserved
  cases memFindReservation (w.mem s').reservations page with
  | none => exact .refl w
  | some res =>
    exact (Kept.of_mem rfl : Kept s w (w.addAnon 1)).trans (kept_ptMapNothing h s s' page _ _ _)

lemma kept_faultIn (h : Host) (s s' page : ℕ) (w : World) : Kept s w (faultIn h s' page w).1 := by
  unfold faultIn
  simp only
  cases (w.mem s').pt.memPt page with
  | some e => exact .refl w
  | none =>
    cases (w.mem s').pt.nextMapped memPages ((w.mem s').pt.memNextPage page) with
    | none => exact kept_mapReserved h s s' page w
    | some p =>
      simp only
      split_ifs
      · exact kept_growStack h s s' page p w
      · exact .refl w
      · exact kept_mapReserved h s s' page w

lemma kept_clearCode {e : PtEntry} (he : w.slot (s, ptIndex page) = some e) :
    Kept s w (clearCode s page e.flags w) := by
  unfold clearCode
  split_ifs
  · apply Kept.memChanged
    rw [changes_setFlags]
  · exact kept_setFlags he (.refl e)

lemma kept_copyForWrite (h : Host) (s page : ℕ) (w : World) :
    Kept s w (copyForWrite h s page w) := by
  unfold copyForWrite
  cases (w.mem s).pt.memPt page with
  | none => exact .refl w
  | some e =>
    simp only
    split_ifs
    · apply Kept.memChanged
      exact (kept_ptMap h s s page 1 _ 0 _ (w.addAnon 1)).le
    · exact .memChanged (kept_ptMap h s s page 1 _ 0 _ w).le
    · exact .refl w

lemma lt_changes_copyForWrite {e : PtEntry} (he : w.slot (s, ptIndex page) = some e)
    (hcow : e.flags.cow = true) (hok : h.mmapOk page = true) :
    changes s w < changes s (copyForWrite h s page w) := by
  have hpt : (w.mem s).pt.memPt page = some e := he
  simp only [copyForWrite, hpt, hcow, hok, Bool.and_self, if_true]
  rw [changes_memChanged, Nat.lt_succ_iff]
  split_ifs
  · exact (kept_ptMap h s s page 1 _ 0 _ (w.addAnon 1)).le
  · exact (kept_ptMap h s s page 1 _ 0 _ w).le

lemma kept_prepareWrite (page : ℕ) (ptrace : Bool) (w : World)
    (hok : ptrace = true → h.mmapOk page = true) :
    Kept s w (prepareWrite h s page ptrace w).1 := by
  unfold prepareWrite
  cases he : (w.mem s).pt.memPt page with
  | none => exact .refl w
  | some e =>
    simp only
    cases ptrace with
    | false =>
      simp only [Bool.not_false, Bool.true_and, Bool.false_eq_true, if_false]
      split_ifs
      · exact .refl w
      · exact (kept_clearCode he).trans (kept_copyForWrite h s page _)
    | true =>
      simp only [Bool.not_true, Bool.false_and, Bool.false_eq_true, if_false, if_true]
      have hslot : ∃ e', (clearCode s page (e.flags ||| (pWrite ||| pCow)) w).slot
          (s, ptIndex page) = some e' ∧ e'.flags.cow = true := by
        have hpt : w.slot (s, ptIndex page) = some e := he
        unfold clearCode
        split_ifs
        · exact ⟨_, by rw [memChanged_slot, setFlags_slot, update_self, hpt]; rfl, by simp [pCode, pCow]⟩
        · exact ⟨_, by rw [setFlags_slot, update_self, hpt]; rfl, by simp [pCow]⟩
      obtain ⟨e', he', hcow⟩ := hslot
      apply Keeps.of_lt
      refine lt_of_le_of_lt ?_ (lt_changes_copyForWrite he' hcow (hok rfl))
      unfold clearCode
      split_ifs
      · exact (changes_setFlags s s page _ w).ge.trans (changes_memChanged_le _ s)
      · exact (changes_setFlags s s page _ w).ge

lemma kept_memPtr (h : Host) (s s' addr : ℕ) (type : AccessType) (w : World)
    (hok : type = .writePtrace → h.mmapOk (ShellBox.page addr) = true) :
    Kept s w (memPtr h s' addr type w).1 := by
  by_cases hs : s = s'
  swap
  · exact .of_mem (memPtr_mem hs w)
  subst hs
  have hfault := kept_faultIn h s s (ShellBox.page addr) w
  unfold memPtr
  generalize faultIn h s (ShellBox.page addr) w = r at hfault
  obtain ⟨w₁, ok⟩ := r
  cases ok with
  | false => exact hfault
  | true =>
    have hprep := kept_prepareWrite (h := h) (s := s) (ShellBox.page addr)
      (type = .writePtrace) w₁ (by simpa using hok)
    simp only
    split_ifs
    · exact hfault
    · generalize prepareWrite h s (ShellBox.page addr) (type = .writePtrace) w₁ = r at hprep
      obtain ⟨w₂, ok⟩ := r
      cases ok <;> exact hfault.trans hprep

lemma kept_mmuMarkCodePage (s s' page : ℕ) (w : World) :
    Kept s w (mmuMarkCodePage s' page w).1 := by
  unfold mmuMarkCodePage
  cases (w.mem s').pt.memPt page with
  | none => exact .refl w
  | some e =>
    simp only
    split_ifs
    · exact .refl w
    · by_cases hs : s = s'
      · subst hs
        apply Kept.memChanged
        rw [changes_setFlags]
      · exact .of_mem ((memChanged_mem hs _).trans (setMem_of_ne _ _ _ hs))

/-! ### Operations -/

namespace MemOp

/-- The host refuses neither a protection that takes `P_WRITE` away, nor the memory for a store
of the debugger, which the emulator does not survive. -/
def Announced (h : Host) : MemOp → Prop
  | setFlags _ start pages prot => ProtectsFully h start pages prot
  | access _ addr .writePtrace => h.mmapOk (ShellBox.page addr) = true
  | _ => True

/-- While the count of an address space stands still, its pages are served as before. -/
theorem kept_step (s : ℕ) (w : World) (op : Host × MemOp) (hop : op.2.Announced op.1) :
    Kept s w (step w op) := by
  obtain ⟨h, op⟩ := op
  cases op with
  | mapLazy s' r flags => exact kept_ptMapLazy h s s' r flags w
  | map s' r memory offset flags => exact kept_ptMap h s s' _ _ memory offset flags.1 w
  | mapNothing s' r flags => exact kept_ptMapNothing h s s' _ _ flags.1 w
  | unmap s' start pages =>
    simp only [step, ptUnmap]
    split_ifs
    · exact kept_ptUnmapAlways h s s' start pages w
    · exact .refl w
  | unmapAlways s' start pages => exact kept_ptUnmapAlways h s s' start pages w
  | setFlags s' start pages prot => exact kept_ptSetFlags s s' start pages prot w (Or.inl hop)
  | copyOnWrite src dst hne r => exact kept_ptCopyOnWrite h s src dst _ _ w
  | access s' addr type =>
    refine kept_memPtr h s s' addr type w ?_
    rintro rfl
    exact hop
  | write s' addr byte =>
    simp only [step, writeByte_eq]
    have hptr := kept_memPtr h s s' addr .write w (by simp)
    cases (memPtr h s' addr .write w).2 with
    | none => exact hptr
    | some p => exact hptr.trans (.of_mem rfl)
  | markCode s' page => exact kept_mmuMarkCodePage s s' page w
  | destroy s' => exact kept_memDestroy h s s' w

end MemOp

end ShellBox
