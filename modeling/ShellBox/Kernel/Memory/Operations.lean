import ShellBox.Kernel.Memory.Steps

/-!
# The memory operations as sequences of elementary steps

One lemma for each function of `kernel/memory.c` that changes page tables: it is a sequence
of elementary steps, with the slots it may replace and its effect on the anonymous count.
-/

namespace ShellBox

open Function World

variable {S : Scope} {w : World} {h : Host} {s start pages page : ℕ}

/-! ### Changes outside entries and objects -/

lemma steps_memChanged (w : World) (s : ℕ) : Steps S 0 w (w.memChanged s) :=
  .single (.frame (memChanged_slot w s) rfl rfl rfl rfl)

lemma steps_setMem {m : Mem} (hm : m.pt.entry = (w.mem s).pt.entry) :
    Steps S 0 w (w.setMem s m) :=
  .single (.frame (setMem_slot w s m hm) rfl rfl rfl rfl)

/-! ### Unmapping -/

def MayReplace (S : Scope) (w : World) (k : ℕ × ℕ) : Prop :=
  ∀ e, w.slot k = some e → k ∈ S.replace ∨ ¬ e.Pinned

lemma mayReplace_of_none {k : ℕ × ℕ} (hk : w.slot k = none) : MayReplace S w k :=
  fun e he => by simp [hk] at he

lemma unmapPage_none (he : w.slot (s, ptIndex page) = none) : unmapPage s page w = w := by
  rw [unmapPage, memPt_eq_slot, he]

lemma unmapPage_some {e : PtEntry} (he : w.slot (s, ptIndex page) = some e) :
    unmapPage s page w =
      ((if e.flags.anonymous then w.addAnon (-1) else w).memPtDel s page).unrefData e.data := by
  rw [unmapPage, memPt_eq_slot, he]

lemma unmapPage_slot (w : World) (s page : ℕ) :
    (unmapPage s page w).slot = update w.slot (s, ptIndex page) none := by
  cases he : w.slot (s, ptIndex page) with
  | none => rw [unmapPage_none he, eq_comm, update_eq_self_iff, he]
  | some e =>
    rw [unmapPage_some he]
    split_ifs <;> simp

lemma steps_unmapPage (hT : MayReplace S w (s, ptIndex page)) :
    Steps S 0 w (unmapPage s page w) := by
  cases he : w.slot (s, ptIndex page) with
  | none =>
    rw [unmapPage_none he]
    exact .refl w
  | some e =>
    have hunlink : ∀ v : World, v.slot = w.slot → Micro S e.flags.anonCount v
        ((v.memPtDel s page).unrefData e.data) :=
      fun v hv => .unlink v s page e (hv ▸ he) (hT e he)
    rw [unmapPage_some he]
    split_ifs with ha
    · exact ((Steps.single (.count w (-1))).tail (hunlink (w.addAnon (-1)) rfl)).cast
        (by simp [Flags.anonCount, ha])
    · exact (Steps.single (hunlink w rfl)).cast (by simp [Flags.anonCount, ha])

lemma unmapPage_data {d : DataId} (hd : ∀ e, w.slot (s, ptIndex page) = some e → e.data ≠ d) :
    (unmapPage s page w).data d = w.data d := by
  cases he : w.slot (s, ptIndex page) with
  | none => rw [unmapPage_none he]
  | some e =>
    rw [unmapPage_some he, unrefData_data_of_ne _ _ (hd e he).symm]
    split_ifs <;> rfl

private lemma ptUnmapAlways_eq (h : Host) (s start pages : ℕ) (w : World) :
    ∃ w₁ : World, Steps S 0 w w₁ ∧ w₁.slot = w.slot ∧ w₁.data = w.data ∧
      ptUnmapAlways h s start pages w =
        (forLoop (fun w page => (w.mem s).pt.memNextPage page) (unmapPage s) (start + pages)
          pages start w₁).memChanged s := by
  refine ⟨_, steps_setMem ?_, setMem_slot _ _ _ ?_, rfl, rfl⟩ <;> rfl

lemma steps_ptUnmapAlways
    (hT : ∀ q, start ≤ q → q < start + pages → MayReplace S w (s, ptIndex q)) :
    Steps S 0 w (ptUnmapAlways h s start pages w) := by
  obtain ⟨w₁, hs₁, hslot₁, -, heq⟩ := ptUnmapAlways_eq (S := S) h s start pages w
  -- entries only go, so what may be replaced at first may be replaced in every round
  obtain ⟨j, -, -, hsteps, -⟩ := forLoop_exit
    (fun w page => (w.mem s).pt.memNextPage page) (unmapPage s) (start + pages)
    (P := fun i w' => start ≤ i ∧ Steps S 0 w w' ∧
      ∀ k e, w'.slot k = some e → w.slot k = some e)
    (fun w' i => (w'.mem s).pt.lt_memNextPage i)
    (fun i w' hi ⟨hle, hsteps, hsub⟩ => by
      refine ⟨le_of_lt (lt_of_le_of_lt hle (PageTable.lt_memNextPage _ i)), ?_, ?_⟩
      · exact hsteps.trans₀ (steps_unmapPage fun e he => hT i hle hi e (hsub _ e he))
      · intro k e he
        rw [unmapPage_slot] at he
        by_cases hk : k = (s, ptIndex i)
        · simp [hk] at he
        · exact hsub k e (by rwa [update_of_ne hk] at he))
    pages start le_rfl ⟨le_rfl, hs₁, fun k e he => hslot₁ ▸ he⟩
  rw [heq]
  exact hsteps.trans₀ (steps_memChanged _ s)

lemma ptUnmapAlways_one_slot (h : Host) (s page : ℕ) (w : World) :
    (ptUnmapAlways h s page 1 w).slot = update w.slot (s, ptIndex page) none := by
  obtain ⟨w₁, -, hslot, -, heq⟩ := ptUnmapAlways_eq (S := ⟨∅, ∅, False⟩) h s page 1 w
  rw [heq, memChanged_slot]
  simp only [forLoop, Nat.lt_succ_self, if_true]
  rw [unmapPage_slot, hslot]

lemma ptUnmapAlways_one_data {d : DataId}
    (hd : ∀ e, w.slot (s, ptIndex page) = some e → e.data ≠ d) :
    (ptUnmapAlways h s page 1 w).data d = w.data d := by
  obtain ⟨w₁, -, hslot, hdata, heq⟩ := ptUnmapAlways_eq (S := ⟨∅, ∅, False⟩) h s page 1 w
  rw [heq, memChanged_data]
  simp only [forLoop, Nat.lt_succ_self, if_true]
  rw [unmapPage_data (by rwa [hslot]), hdata]

lemma ptUnmapAlways_all_slot (h : Host) (s : ℕ) (w : World) (i : ℕ) :
    (ptUnmapAlways h s 0 memPages w).slot (s, i) = none := by
  obtain ⟨w₁, -, -, -, heq⟩ := ptUnmapAlways_eq (S := ⟨∅, ∅, False⟩) h s 0 memPages w
  obtain ⟨j, hj, hnone⟩ := forLoop_exit
    (fun w page => (w.mem s).pt.memNextPage page) (unmapPage s) (0 + memPages)
    (P := fun i (w' : World) => ∀ p, p < i → p < memPages → w'.slot (s, p) = none)
    (fun w' i => (w'.mem s).pt.lt_memNextPage i)
    (fun i w' hi ih p hp hmem => by
      rcases lt_trichotomy p i with hpi | rfl | hpi
      · rw [unmapPage_slot]
        by_cases hk : (s, p) = (s, ptIndex i)
        · simp [hk]
        · rw [update_of_ne hk]
          exact ih p hpi hmem
      · rw [unmapPage_slot, ptIndex_of_lt hmem, update_self]
      · exact PageTable.memNextPage_skips _ hpi hp hmem)
    memPages 0 (s := w₁) (by omega) (by simp)
  rw [heq, memChanged_slot]
  rcases lt_or_ge i memPages with hi | hi
  · exact hnone i (by omega) hi
  · refine Option.eq_none_iff_forall_ne_some.mpr fun e he => ?_
    exact absurd (PageTable.mapped _ i e he).1 (by omega)

lemma steps_memDestroy (hT : ∀ i, (s, i) ∈ S.replace) : Steps S 0 w (memDestroy h s w) := by
  refine (steps_ptUnmapAlways (h := h)
    fun q _ _ e _ => Or.inl (hT _)).trans₀ (steps_setMem ?_)
  funext i
  exact (ptUnmapAlways_all_slot h s w i).symm

/-! ### Mapping -/

/-- The entry `pt_map` gives to the page `q`. -/
def newEntry (d : DataId) (start offset : ℕ) (flags : Flags) (q : ℕ) : PtEntry where
  data := d
  offset := (q - start) * pageSize + offset
  flags := flags

section Map

variable {d : DataId} {offset : ℕ} {flags : Flags}

private lemma isMapped_iff : isMapped w s page = true ↔ ∃ e, w.slot (s, ptIndex page) = some e := by
  rw [isMapped, memPt_eq_slot, Option.isSome_iff_exists]

lemma unmap_before (h : Host) (w : World) (s page : ℕ) :
    (if isMapped w s page then (ptUnmap h s page 1 w).1 else w) =
      if isMapped w s page then ptUnmapAlways h s page 1 w else w := by
  split_ifs with hm
  · simp [ptUnmap, allPages, hm]
  · rfl

lemma unmap_before_slot (h : Host) (w : World) (s page : ℕ) :
    (if isMapped w s page then ptUnmapAlways h s page 1 w else w).slot =
      update w.slot (s, ptIndex page) none := by
  split_ifs with hm
  · exact ptUnmapAlways_one_slot h s page w
  · rw [isMapped, memPt_eq_slot, Bool.not_eq_true, Option.isSome_eq_false_iff,
      Option.isNone_iff_eq_none] at hm
    exact (update_eq_self_iff.mpr hm.symm).symm

lemma mapPage_slot : (mapPage h s d start offset flags page w).slot =
    update w.slot (s, ptIndex page) (some (newEntry d start offset flags page)) := by
  simp only [mapPage, unmap_before, memPtNew_slot, refData_slot, unmap_before_slot, update_idem]
  rfl

lemma mapPage_data {x : Data} (hx : w.data d = some x)
    (hd : ∀ e, w.slot (s, ptIndex page) = some e → e.data ≠ d) :
    (mapPage h s d start offset flags page w).data d =
      some { x with refcount := x.refcount + 1 } := by
  have hkeep : (if isMapped w s page then ptUnmapAlways h s page 1 w else w).data d = some x := by
    split_ifs
    · rw [ptUnmapAlways_one_data hd, hx]
    · exact hx
  simp [mapPage, unmap_before, refData, hkeep]

lemma steps_mapPage (hlive : (w.data d).isSome)
    (hd : ∀ e, w.slot (s, ptIndex page) = some e → e.data ≠ d)
    (hT : MayReplace S w (s, ptIndex page))
    (hsep : ∀ k e, w.slot k = some e → ¬ (newEntry d start offset flags page).Overlaps e)
    (hmark : flags.IsMapFlags ∨ S.debug) :
    Steps S (-flags.anonCount) w (mapPage h s d start offset flags page w) := by
  obtain ⟨x, hx⟩ := Option.isSome_iff_exists.mp hlive
  have hslot := unmap_before_slot h w s page
  have hunmap : Steps S 0 w (if isMapped w s page then ptUnmapAlways h s page 1 w else w) := by
    split_ifs
    · refine steps_ptUnmapAlways fun q hle hlt => ?_
      obtain rfl : q = page := by omega
      exact hT
    · exact .refl w
  have hdata : (if isMapped w s page then ptUnmapAlways h s page 1 w else w).data d = some x := by
    split_ifs
    · rw [ptUnmapAlways_one_data hd, hx]
    · exact hx
  simp only [mapPage, unmap_before]
  refine hunmap.trans₀ (.single (.link _ s page (newEntry d start offset flags page) ?_ ?_ ?_
    hmark))
  · rw [hslot, update_self]
  · exact Option.isSome_iff_exists.mpr ⟨x, hdata⟩
  · intro k e he hover
    rw [hslot] at he
    by_cases hk : k = (s, ptIndex page)
    · simp [hk] at he
    · exact absurd hover (hsep k e (by rwa [update_of_ne hk] at he))

/-- The invariant of the loop of `pt_map`: the pages below `page` have their new entries,
and nothing else has changed. -/
structure MapLoop (S : Scope) (s start offset : ℕ) (flags : Flags)
    (bytes : ℕ → UInt8) (w : World) (page : ℕ) (w' : World) : Prop where
  steps : Steps S (-((page - start : ℕ) * flags.anonCount)) w w'
  data : ∃ x, w'.data w.nextData = some x ∧ x.bytes = bytes
  inside : ∀ q, start ≤ q → q < page →
    w'.slot (s, ptIndex q) = some (newEntry w.nextData start offset flags q)
  outside : ∀ k, (∀ q, start ≤ q → q < page → k ≠ (s, ptIndex q)) → w'.slot k = w.slot k

lemma ptIndex_ne {p q : ℕ} (hlt : p < q) (hle : q < p + memPages) : ptIndex p ≠ ptIndex q := by
  unfold ptIndex
  intro heq
  have hdvd := (Nat.modEq_iff_dvd' hlt.le).mp heq
  have := Nat.le_of_dvd (by omega) hdvd
  omega

namespace MapLoop

variable {bytes : ℕ → UInt8} {w' : World}

lemma start_loop (w : World) : MapLoop S s start offset flags bytes w start
    (w.allocData bytes) where
  steps := (Steps.single (.alloc w bytes)).cast (by simp)
  data := ⟨{ bytes, refcount := 0 }, by simp [allocData], rfl⟩
  inside q hle hlt := by omega
  outside k _ := rfl

lemma entry_cases (hl : MapLoop S s start offset flags bytes w page w') (hb : w.Balanced)
    {k : ℕ × ℕ} {e : PtEntry} (he : w'.slot k = some e) (hd : e.data = w.nextData) :
    ∃ q, start ≤ q ∧ q < page ∧ k = (s, ptIndex q) ∧
      e = newEntry w.nextData start offset flags q := by
  by_cases hk : ∃ q, start ≤ q ∧ q < page ∧ k = (s, ptIndex q)
  · obtain ⟨q, hle, hlt, rfl⟩ := hk
    rw [hl.inside q hle hlt, Option.some.injEq] at he
    exact ⟨q, hle, hlt, rfl, he.symm⟩
  · push Not at hk
    rw [hl.outside k hk] at he
    exact absurd hd (Nat.ne_of_lt (hb.lt_nextData he))

lemma step (hl : MapLoop S s start offset flags bytes w page w') (hb : w.Balanced)
    (hle : start ≤ page) (hlt : page < start + pages) (hpages : pages ≤ memPages)
    (hT : MayReplace S w (s, ptIndex page)) (hmark : flags.IsMapFlags ∨ S.debug) :
    MapLoop S s start offset flags bytes w (page + 1)
      (mapPage h s w.nextData start offset flags page w') := by
  have hold : w'.slot (s, ptIndex page) = w.slot (s, ptIndex page) := by
    refine hl.outside _ fun q hq hqp heq => ptIndex_ne hqp (by omega) ?_
    exact (Prod.ext_iff.mp heq).2.symm
  have hother : ∀ e, w'.slot (s, ptIndex page) = some e → e.data ≠ w.nextData := by
    intro e he
    rw [hold] at he
    exact Nat.ne_of_lt (hb.lt_nextData he)
  obtain ⟨x, hx, hbytes⟩ := hl.data
  refine ⟨?_, ⟨_, mapPage_data hx hother, hbytes⟩, ?_, ?_⟩
  · have hnew : Steps S (-flags.anonCount) w'
        (mapPage h s w.nextData start offset flags page w') := by
      refine steps_mapPage (by simp [hx]) hother (fun e he => hT e (hold ▸ he)) ?_ hmark
      rintro k e he ⟨hd, hlo, hhi⟩
      obtain ⟨q, hq, hqp, -, rfl⟩ := hl.entry_cases hb he hd.symm
      have hmul : (q - start + 1) * pageSize ≤ (page - start) * pageSize :=
        Nat.mul_le_mul_right _ (by omega)
      simp only [newEntry, Nat.add_mul, one_mul] at hlo hhi hmul
      omega
    refine (hl.steps.trans hnew).cast ?_
    rw [show page + 1 - start = (page - start) + 1 by omega]
    push_cast
    ring
  · intro q hq hqp
    rw [mapPage_slot]
    rcases Nat.lt_succ_iff_lt_or_eq.mp hqp with hlt' | rfl
    · have hne : (s, ptIndex q) ≠ (s, ptIndex page) := fun heq =>
        ptIndex_ne hlt' (by omega) (Prod.ext_iff.mp heq).2
      rw [update_of_ne hne, hl.inside q hq hlt']
    · rw [update_self]
  · intro k hk
    rw [mapPage_slot, update_of_ne (hk page hle (Nat.lt_succ_self page))]
    exact hl.outside k fun q hq hqp => hk q hq (Nat.lt_succ_of_lt hqp)

end MapLoop

/-- `pt_map`: the pages of the range, and only these, have new entries for a new object. -/
theorem ptMap_ok (bytes : ℕ → UInt8) (offset : ℕ) (flags : Flags) (hb : w.Balanced) (hpages : pages ≤ memPages)
    (hok : h.dataOk start = true)
    (hT : ∀ q, start ≤ q → q < start + pages → MayReplace S w (s, ptIndex q))
    (hmark : flags.IsMapFlags ∨ S.debug) :
    ∃ w', ptMap h s start pages (some bytes) offset flags w = (w', .ok ()) ∧
      MapLoop S s start offset flags bytes w (start + pages) w' := by
  obtain ⟨j, hj, hle, hjle, hloop⟩ := forLoop_exit
    (fun _ page => page + 1) (mapPage h s w.nextData start offset flags) (start + pages)
    (P := fun i w' => start ≤ i ∧ i ≤ start + pages ∧
      MapLoop S s start offset flags bytes w i w')
    (fun _ i => Nat.lt_succ_self i)
    (fun i w' hi ⟨hle, _, hloop⟩ =>
      ⟨Nat.le_succ_of_le hle, hi, hloop.step hb hle hi hpages (hT i hle hi) hmark⟩)
    pages start le_rfl ⟨le_rfl, Nat.le_add_right _ _, MapLoop.start_loop w⟩
  obtain rfl : j = start + pages := le_antisymm hjle hj
  exact ⟨_, by simp [ptMap, hok], hloop⟩

/-- The number of anonymous entries a mapping function adds, by its result. -/
def mapCost (r : Except Errno Unit) (pages : ℕ) (flags : Flags) : ℤ :=
  match r with
  | .ok _ => pages * flags.anonCount
  | .error _ => 0

lemma steps_ptMap {memory : Option (ℕ → UInt8)} (hb : w.Balanced) (hpages : pages ≤ memPages)
    (hT : ∀ q, start ≤ q → q < start + pages → MayReplace S w (s, ptIndex q))
    (hmark : flags.IsMapFlags ∨ S.debug) :
    Steps S (-mapCost (ptMap h s start pages memory offset flags w).2 pages flags) w
      (ptMap h s start pages memory offset flags w).1 := by
  cases memory with
  | none => exact .refl w
  | some bytes =>
    by_cases hok : h.dataOk start = true
    · obtain ⟨w', heq, hloop⟩ := ptMap_ok (S := S) bytes offset flags
        hb hpages hok hT hmark
      rw [heq]
      exact hloop.steps.cast (by simp [mapCost])
    · simp only [ptMap, hok]
      exact .refl w

end Map

lemma steps_ptMapNothing (flags : Flags) (hb : w.Balanced)
    (hT : ∀ q, start ≤ q → q < start + pages → MayReplace S w (s, ptIndex q))
    (hmark : flags.IsMapFlags ∨ S.debug) :
    Steps S (-mapCost (ptMapNothing h s start pages flags w).2 pages pAnonymous) w
      (ptMapNothing h s start pages flags w).1 := by
  unfold ptMapNothing
  split_ifs with hzero hok
  · exact (Steps.refl w).cast (by simp [mapCost, hzero])
  · refine (steps_ptMap hb hok.2 hT ?_).cast ?_
    · simpa [Flags.IsMapFlags, pAnonymous] using hmark
    cases (ptMap h s start pages (some fun _ => 0) 0 (flags ||| pAnonymous) w).2 <;>
      simp [mapCost, Flags.anonCount, pAnonymous]
  · exact .refl w

/-! ### Protecting -/

lemma isMapped_setFlags {f : Flags} {q : ℕ} :
    isMapped (w.setFlags s page f) s q = isMapped w s q := by
  simp only [isMapped, memPt_eq_slot, setFlags_slot]
  by_cases hq : (s, ptIndex q) = (s, ptIndex page)
  · rw [← hq, update_self, Option.isSome_map]
  · rw [update_of_ne hq]

lemma unmappedRun_spec (w : World) (s stop fuel page : ℕ) {q : ℕ} (hle : page ≤ q)
    (hlt : q < page + unmappedRun w s stop fuel page) : isMapped w s q = false := by
  induction fuel generalizing page with
  | zero => exact absurd hlt (by simp only [unmappedRun]; omega)
  | succ fuel ih =>
    unfold unmappedRun at hlt
    split_ifs at hlt with hpage
    · rcases Nat.eq_or_lt_of_le hle with rfl | hlt'
      · exact hpage.2
      · exact ih (page + 1) hlt' (by omega)
    · omega

lemma micro_protect {e : PtEntry} (prot : Prot) (he : w.slot (s, ptIndex page) = some e) :
    Micro S 0 w (w.setFlags s page (prot.flags ||| (e.flags &&& pMetaFlags))) := by
  have hshared : (prot.flags ||| (e.flags &&& pMetaFlags)).shared = e.flags.shared :=
    Bool.and_true _
  have hanon : (prot.flags ||| (e.flags &&& pMetaFlags)).anonymous = e.flags.anonymous :=
    Bool.and_true _
  have hcow : (prot.flags ||| (e.flags &&& pMetaFlags)).cow = e.flags.cow := Bool.and_true _
  refine .flags w s page e _ he hshared hanon (fun hc => hcow.trans hc) fun hp hc => ?_
  rw [hcow, hp.2] at hc
  exact absurd hc Bool.false_ne_true

lemma isProtNone_and_pRwx (prot : Prot) :
    (prot.flags &&& pRwx).isProtNone = prot.flags.isProtNone := by
  simp [Flags.isProtNone, pRwx, pRead, pWrite, pExec]

/-- The second loop of `pt_set_flags`. The drift stays as it is if no page gets an entry. -/
lemma steps_setFlagsLoop {prot : Prot} (h : Host) (s stop fuel page : ℕ) {w : World}
    (hb : w.Balanced) :
    ∃ n, Steps S n w (setFlagsLoop h s stop prot.flags fuel page w).1 ∧
      ((prot.flags.isProtNone = true ∨ ∀ q, page ≤ q → q < stop → isMapped w s q = true) →
        n = 0) := by
  induction fuel generalizing page w with
  | zero => exact ⟨0, steps_memChanged w s, fun _ => rfl⟩
  | succ fuel ih =>
    unfold setFlagsLoop
    by_cases hlt : page < stop
    swap
    · simp only [hlt, if_false]
      exact ⟨0, steps_memChanged w s, fun _ => rfl⟩
    simp only [hlt, if_true]
    rw [memPt_eq_slot]
    cases he : w.slot (s, ptIndex page) with
    | none =>
      have hunmapped : isMapped w s page = false := by rw [isMapped, memPt_eq_slot, he]; rfl
      simp only
      split_ifs with hnone
      · obtain ⟨n, hs, hn⟩ := ih (page + 1) hb
        refine ⟨n, hs, fun hcond => hn (hcond.imp_right fun hall q hq => hall q (by omega))⟩
      · -- a run of reserved pages gets its entries
        have hrun := fun q => unmappedRun_spec w s stop (stop - page) page (q := q)
        generalize unmappedRun w s stop (stop - page) page = runLen at hrun
        have hempty : ∀ q, page ≤ q → q < page + runLen →
            MayReplace S w (s, ptIndex q) := by
          intro q hle hlt'
          refine mayReplace_of_none ?_
          simpa [isMapped, memPt_eq_slot] using hrun q hle hlt'
        have hmap := steps_ptMapNothing (S := S) (h := h) (prot.flags ||| pAnonymous)
          hb hempty (Or.inl fun hs => absurd hs Bool.false_ne_true)
        obtain ⟨n, hs, -⟩ := ih (page + runLen) (hmap.balanced hb)
        refine ⟨_, hmap.trans hs, fun hcond => ?_⟩
        rcases hcond with hprot | hall
        · exact absurd ((isProtNone_and_pRwx prot).trans hprot) hnone
        · simp [hall page le_rfl hlt] at hunmapped
    | some e =>
      have hprotect := Steps.single (micro_protect (S := S) prot he)
      simp only
      split_ifs with hfail
      · exact ⟨0, hprotect, fun _ => rfl⟩
      · obtain ⟨n, hs, hn⟩ := ih (page + 1) (hprotect.balanced hb)
        refine ⟨n, hprotect.trans₀ hs, fun hcond => hn (hcond.imp_right fun hall q hq hqs => ?_)⟩
        rw [isMapped_setFlags]
        exact hall q (by omega) hqs

lemma steps_ptSetFlags (prot : Prot) (h : Host) (s start pages : ℕ) {w : World}
    (hb : w.Balanced) :
    ∃ n, Steps S n w (ptSetFlags h s start pages prot.flags w).1 ∧
      ((prot.flags.isProtNone = true ∨
        ∀ q, start ≤ q → q < start + pages → isMapped w s q = true) → n = 0) := by
  unfold ptSetFlags
  split_ifs with hall
  · exact steps_setFlagsLoop h s _ _ _ hb
  · exact ⟨0, .refl w, fun _ => rfl⟩

/-! ### Forking -/

@[simp] lemma copyFlags_shared (f : Flags) : (copyFlags f).shared = f.shared := by
  unfold copyFlags
  split_ifs <;> simp [pCow]

@[simp] lemma copyFlags_anonymous (f : Flags) : (copyFlags f).anonymous = f.anonymous := by
  unfold copyFlags
  split_ifs <;> simp [pCow]

@[simp] lemma copyFlags_cow (f : Flags) : (copyFlags f).cow = (f.cow || !f.shared) := by
  unfold copyFlags
  split_ifs with hs <;> simp [pCow, hs]

private lemma micro_copyFlags {e : PtEntry} (he : w.slot (s, ptIndex page) = some e) :
    Micro S 0 w (w.setFlags s page (copyFlags e.flags)) := by
  refine .flags w s page e _ he (copyFlags_shared _) (copyFlags_anonymous _) ?_ ?_
  · intro hc
    simp [hc]
  · intro hp hc
    simp [hp.1, hp.2] at hc

/-- The new entry of `dst` shares the host page of the entry it is made from, and of all
entries that one shares it with. -/
private lemma micro_copyLink {src dst : ℕ} {e : PtEntry} (hD : dst ∈ S.into) (hb : w.Balanced)
    (hl : w.Lawful) (he : w.slot (src, ptIndex page) = some e)
    (hboth : e.flags.cow = true ∨ e.flags.shared = true)
    (hempty : w.slot (dst, ptIndex page) = none) (hmark : e.flags.IsMapFlags ∨ S.debug) :
    Micro S (-e.flags.anonCount) w ((w.refData e.data).memPtNew dst page
      { e with flags := e.flags &&& ~~~pCode }) := by
  have hcount : e.flags.anonCount = (e.flags &&& ~~~pCode).anonCount := by
    simp [Flags.anonCount, pCode]
  rw [hcount]
  have hlive : (w.data e.data).isSome := hb.live he
  refine .link w dst page { e with flags := e.flags &&& ~~~pCode } hempty hlive ?_ ?_
  swap
  · simpa [Flags.IsMapFlags, pCode] using hmark
  intro k e' he' hover
  have hshare : k.2 = ptIndex page ∧ e.SharesWith e' := by
    by_cases hk : k = (src, ptIndex page)
    · subst hk
      obtain rfl : e = e' := Option.some.inj (he.symm.trans he')
      exact ⟨rfl, rfl, hboth.imp (fun hc => ⟨hc, hc⟩) fun hs => ⟨hs, hs⟩⟩
    · obtain ⟨hidx, hshare⟩ := hl _ k e e' (Ne.symm hk) he he' hover
      exact ⟨hidx.symm, hshare⟩
  refine ⟨hD, hshare.1, hshare.2.1, hshare.2.2.imp (And.imp_left ?_) (And.imp_left ?_)⟩
  · intro hcow
    simpa [pCode] using hcow
  · intro hsh
    simpa [pCode] using hsh

lemma copyPage_some {src dst c : ℕ} {e : PtEntry} (hne : src ≠ dst)
    (he : w.slot (src, ptIndex page) = some e) (hdst : ∀ i, (dst, i) ∈ S.replace) (hD : dst ∈ S.into)
    (hb : w.Balanced) (hl : w.Lawful) (hmark : w.SharedPinned ∨ S.debug) :
    Steps S (-e.flags.anonCount) w (copyPage h src dst page (w, c)).1 ∧
      ((copyPage h src dst page (w, c)).2 : ℤ) = c + e.flags.anonCount ∧
      (copyPage h src dst page (w, c)).1.slot =
        update (update w.slot (src, ptIndex page) (some { e with flags := copyFlags e.flags }))
          (dst, ptIndex page) (some { e with flags := copyFlags e.flags &&& ~~~pCode }) := by
  have hkey : (dst, ptIndex page) ≠ (src, ptIndex page) := fun heq =>
    hne (Prod.ext_iff.mp heq).1.symm
  have hunmap : Steps S 0 w (ptUnmapAlways h dst page 1 w) :=
    steps_ptUnmapAlways fun q _ _ e _ => Or.inl (hdst _)
  have hslot₁ := ptUnmapAlways_one_slot h dst page w
  generalize hw₁ : ptUnmapAlways h dst page 1 w = w₁ at hunmap hslot₁
  have he₁ : w₁.slot (src, ptIndex page) = some e := by
    rw [hslot₁, update_of_ne hkey.symm, he]
  have hsteps₂ := hunmap.tail (micro_copyFlags he₁)
  have hslot₂ : (w₁.setFlags src page (copyFlags e.flags)).slot =
      update w₁.slot (src, ptIndex page) (some { e with flags := copyFlags e.flags }) := by
    rw [setFlags_slot, he₁, Option.map_some]
  generalize hw₂ : w₁.setFlags src page (copyFlags e.flags) = w₂ at hsteps₂ hslot₂
  have heither : (copyFlags e.flags).cow = true ∨ (copyFlags e.flags).shared = true := by
    rw [copyFlags_cow, copyFlags_shared, Bool.or_eq_true, Bool.not_eq_true']
    cases e.flags.shared
    · exact Or.inl (Or.inr rfl)
    · exact Or.inr rfl
  have hlink := micro_copyLink (S := S) hD (hsteps₂.balanced hb)
    (hsteps₂.lawful hl) (by rw [hslot₂, update_self]) heither
    (by rw [hslot₂, update_of_ne hkey, hslot₁, update_self]) (hmark.imp_left fun hm hs => by
      rw [copyFlags_shared] at hs
      simp [hs, hm _ e he hs])
  have heq : copyPage h src dst page (w, c) =
      ((w₂.refData e.data).memPtNew dst page { e with flags := copyFlags e.flags &&& ~~~pCode },
        if e.flags.anonymous then c + 1 else c) := by
    simp only [copyPage, memPt_eq_slot, he, hw₁, hw₂, copyFlags_anonymous]
  rw [heq]
  refine ⟨(hsteps₂.tail hlink).cast ?_, ?_, ?_⟩
  · simp [Flags.anonCount]
  · simp only [Flags.anonCount]
    split_ifs <;> simp
  · rw [memPtNew_slot, refData_slot, hslot₂, hslot₁, update_comm hkey, update_idem]

lemma copyPage_none {src dst c : ℕ} (he : w.slot (src, ptIndex page) = none) :
    copyPage h src dst page (w, c) = (w, c) := by
  simp only [copyPage, memPt_eq_slot, he]

/-- The invariant of the loop of `pt_copy_on_write` over a range of the address space: the
pages of `src` from `start` to `page` are marked and `dst` refers to their host pages. -/
structure CopyLoop (S : Scope) (src dst start : ℕ) (w : World) (page : ℕ)
    (st : World × ℕ) : Prop where
  steps : Steps S (-(st.2 : ℤ)) w st.1
  marked : ∀ p e, start ≤ p → p < page → p < memPages → w.slot (src, p) = some e →
    st.1.slot (src, p) = some { e with flags := copyFlags e.flags } ∧
      st.1.slot (dst, p) = some { e with flags := copyFlags e.flags &&& ~~~pCode }
  todo : ∀ p, page ≤ p → p < memPages → st.1.slot (src, p) = w.slot (src, p)
  unmapped : ∀ p, w.slot (src, p) = none →
    st.1.slot (src, p) = none ∧ st.1.slot (dst, p) = w.slot (dst, p)
  other : ∀ k, k.1 ≠ src → k.1 ≠ dst → st.1.slot k = w.slot k

namespace CopyLoop

variable {src dst : ℕ} {st : World × ℕ}

private lemma copy (hl : CopyLoop S src dst start w page st) (hne : src ≠ dst)
    (hdst : ∀ i, (dst, i) ∈ S.replace) (hD : dst ∈ S.into) (hb : w.Balanced) (hlaw : w.Lawful)
    (hmark : ¬ S.debug → w.SharedPinned) (hmem : page < memPages) :
    CopyLoop S src dst start w (page + 1) (copyPage h src dst page st) := by
  obtain ⟨w', c⟩ := st
  have htodo : w'.slot (src, page) = w.slot (src, page) := hl.todo page le_rfl hmem
  cases he : w.slot (src, page) with
  | none =>
    rw [copyPage_none (by rw [ptIndex_of_lt hmem, htodo, he])]
    refine ⟨hl.steps, fun p e hle hlt hp hpe => ?_, fun p hle => hl.todo p (by omega),
      hl.unmapped, hl.other⟩
    rcases Nat.lt_succ_iff_lt_or_eq.mp hlt with hlt' | rfl
    · exact hl.marked p e hle hlt' hp hpe
    · simp [he] at hpe
  | some e =>
    have he' : w'.slot (src, ptIndex page) = some e := by rw [ptIndex_of_lt hmem, htodo, he]
    obtain ⟨hs, hc, hslot⟩ := copyPage_some (S := S) (h := h) (c := c) hne he' hdst hD
      (hl.steps.balanced hb) (hl.steps.lawful hlaw) (by
        by_cases hS : S.debug
        · exact Or.inr hS
        · exact Or.inl (hl.steps.sharedPinned hS (hmark hS)))
    rw [ptIndex_of_lt hmem] at hslot
    refine ⟨(hl.steps.trans hs).cast (by rw [hc]; ring), ?_, ?_, ?_, ?_⟩
    · intro p e₁ hle hlt hp hpe
      rw [hslot]
      rcases Nat.lt_succ_iff_lt_or_eq.mp hlt with hlt' | rfl
      · have hne' := Nat.ne_of_lt hlt'
        simpa [hne, hne.symm, hne'] using hl.marked p e₁ hle hlt' hp hpe
      · obtain rfl : e = e₁ := Option.some.inj (he.symm.trans hpe)
        simp [hne]
    · intro p hle hp
      have hne' : p ≠ page := by omega
      simpa [hslot, hne, hne'] using hl.todo p (by omega) hp
    · intro p hp
      have hne' : p ≠ page := by
        rintro rfl
        simp [he] at hp
      simpa [hslot, hne, hne'] using hl.unmapped p hp
    · intro k hk hk'
      have hsrc : k ≠ (src, page) := fun heq => hk (heq ▸ rfl)
      have hdst' : k ≠ (dst, page) := fun heq => hk' (heq ▸ rfl)
      simpa [hslot, hsrc, hdst'] using hl.other k hk hk'

private lemma skip (hl : CopyLoop S src dst start w page st) {next : ℕ} (hle : page ≤ next)
    (hskip : ∀ p, page ≤ p → p < next → p < memPages → st.1.slot (src, p) = none) :
    CopyLoop S src dst start w next st where
  steps := hl.steps
  marked p e hp hlt hmem he := by
    rcases lt_or_ge p page with hpp | hpp
    · exact hl.marked p e hp hpp hmem he
    · have hnone := hskip p hpp hlt hmem
      rw [hl.todo p hpp hmem, he] at hnone
      exact absurd hnone (by simp)
  todo p hp := hl.todo p (by omega)
  unmapped := hl.unmapped
  other := hl.other

end CopyLoop

/-- What `pt_copy_on_write` does: elementary steps without effect on the count, after which
the pages of the range are marked in `src` and present in `dst`. -/
theorem ptCopyOnWrite_spec {src dst : ℕ} (start pages : ℕ) (hne : src ≠ dst) (hdst : ∀ i, (dst, i) ∈ S.replace)
    (hD : dst ∈ S.into) (hb : w.Balanced) (hlaw : w.Lawful) (hmark : ¬ S.debug → w.SharedPinned)
    (hfits : start + pages ≤ memPages) :
    Steps S 0 w (ptCopyOnWrite h src dst start pages w) ∧
      ∃ j st, start + pages ≤ j ∧ CopyLoop S src dst start w j st ∧
        (ptCopyOnWrite h src dst start pages w).slot = st.1.slot := by
  obtain ⟨j, hj, hloop⟩ := forLoop_exit
    (fun st page => (st.1.mem src).pt.memNextPage page) (copyPage h src dst) (start + pages)
    (P := CopyLoop S src dst start w)
    (fun st i => (st.1.mem src).pt.lt_memNextPage i)
    (fun i st hi hl => by
      refine (hl.copy hne hdst hD hb hlaw hmark (by omega)).skip (PageTable.lt_memNextPage _ i) ?_
      exact fun p hp hlt hmem => PageTable.memNextPage_skips _ hp hlt hmem)
    pages start (s := (w, 0)) le_rfl
    { steps := (Steps.refl w).cast (by simp)
      marked := fun p e hle hlt => absurd hlt (by omega)
      todo := fun p _ _ => rfl
      unmapped := fun p hp => ⟨hp, rfl⟩
      other := fun k _ _ => rfl }
  unfold ptCopyOnWrite
  generalize forLoop (fun st page => (st.1.mem src).pt.memNextPage page) (copyPage h src dst)
    (start + pages) pages start (w, 0) = st at hloop
  have hcount : Steps S 0 w (st.1.addAnon st.2) :=
    (hloop.steps.tail (.count st.1 st.2)).cast (by ring)
  refine ⟨((hcount.trans₀ (steps_setMem ?_)).trans₀ (steps_memChanged _ _)).trans₀
    (steps_memChanged _ _), j, st, hj, hloop, ?_⟩
  · rfl
  · rw [memChanged_slot, memChanged_slot, setMem_slot _ _ _ (by rfl), addAnon_slot]

/-! ### Translating an address -/

/-- The host gives the memory and the `struct data` of a mapping that starts at a page. -/
def Host.Grants (h : Host) (page : ℕ) : Prop := h.mmapOk page = true ∧ h.dataOk page = true

lemma mapCost_of_grants (hg : h.Grants start) (hpages : pages ≤ memPages) {flags : Flags} :
    mapCost (ptMapNothing h s start pages flags w).2 pages pAnonymous = pages := by
  unfold ptMapNothing
  split_ifs with hzero hok
  · simp [mapCost, hzero]
  · simp [ptMap, hg.2, mapCost, Flags.anonCount, pAnonymous]
  · exact absurd ⟨hg.1, hpages⟩ hok

lemma steps_faultMap {flags : Flags} (hb : w.Balanced) (hpages : pages ≤ memPages)
    (hempty : ∀ q, start ≤ q → q < start + pages → w.slot (s, ptIndex q) = none)
    (hmark : flags.IsMapFlags) :
    ∃ n, Steps S n w (ptMapNothing h s start pages flags (w.addAnon pages)).1 ∧
      (h.Grants start → n = 0) := by
  have hcount : Steps S pages w (w.addAnon pages) := .single (.count w pages)
  have hmap := steps_ptMapNothing (S := S) (h := h) flags
    (hcount.balanced hb) (fun q hle hlt => mayReplace_of_none (hempty q hle hlt))
    (Or.inl hmark)
  refine ⟨_, hcount.trans hmap, fun hg => ?_⟩
  rw [mapCost_of_grants hg hpages]
  ring

lemma steps_mapReserved (hb : w.Balanced) (hempty : w.slot (s, ptIndex page) = none) :
    ∃ n, Steps S n w (mapReserved h s page w).1 ∧ (h.Grants page → n = 0) := by
  unfold mapReserved
  cases memFindReservation (w.mem s).reservations page with
  | none => exact ⟨0, .refl w, fun _ => rfl⟩
  | some res =>
    refine steps_faultMap hb (by decide) (fun q hle hlt => ?_) ?_
    · obtain rfl : q = page := by omega
      exact hempty
    · simpa [Flags.IsMapFlags, pGrowsdown] using res.mapFlags

lemma steps_growStack {p : ℕ} (hb : w.Balanced)
    (hempty : ∀ q, page ≤ q → q < p → w.slot (s, ptIndex q) = none) :
    ∃ n, Steps S n w (growStack h s page p w) ∧ (h.Grants page → n = 0) := by
  unfold growStack
  simp only
  have hlen : (if 256 < p - page then page + 256 else p) - page ≤ 256 := by split_ifs <;> omega
  refine steps_faultMap hb (hlen.trans (by decide)) (fun q hle hlt => hempty q hle ?_) ?_
  · split_ifs at hlt <;> omega
  · exact fun hs => absurd hs Bool.false_ne_true

lemma steps_faultIn (hb : w.Balanced) :
    ∃ n, Steps S n w (faultIn h s page w).1 ∧
      (isMapped w s page = true ∨ h.Grants page → n = 0) := by
  unfold faultIn
  simp only
  cases hempty : (w.mem s).pt.memPt page with
  | some e => exact ⟨0, .refl w, fun _ => rfl⟩
  | none =>
    have hunmapped : isMapped w s page = false := by rw [isMapped, hempty]; rfl
    suffices ∃ n, Steps S n w _ ∧ (h.Grants page → n = 0) by
      obtain ⟨n, hs, hn⟩ := this
      exact ⟨n, hs, fun hg => hn (hg.resolve_left (by simp [hunmapped]))⟩
    simp only
    cases hnext : (w.mem s).pt.nextMapped memPages ((w.mem s).pt.memNextPage page) with
    | none => exact steps_mapReserved hb hempty
    | some p =>
      simp only
      by_cases hgrows : (((w.mem s).pt.memPt p).map (·.flags.growsdown)).getD false = true
      swap
      · rw [if_neg hgrows]
        exact steps_mapReserved hb hempty
      rw [if_pos hgrows]
      by_cases hlimit : withinStackLimit h page = true
      swap
      · rw [if_neg hlimit]
        exact ⟨0, .refl w, fun _ => rfl⟩
      rw [if_pos hlimit]
      refine steps_growStack hb fun q hle hlt => ?_
      obtain ⟨-, hmem, hgap⟩ := PageTable.nextMapped_gap _ hempty hnext
      rw [ptIndex_of_lt (hlt.trans hmem)]
      exact hgap q hle hlt

lemma steps_copyForWrite (hb : w.Balanced) :
    ∃ n, Steps S n w (copyForWrite h s page w) ∧
      ((∀ e, w.slot (s, ptIndex page) = some e → e.flags.cow = false) ∨ h.dataOk page = true →
        n = 0) := by
  unfold copyForWrite
  rw [memPt_eq_slot]
  cases he : w.slot (s, ptIndex page) with
  | none => exact ⟨0, .refl w, fun _ => rfl⟩
  | some e =>
    simp only
    by_cases hcopy : (e.flags.cow && h.mmapOk page) = true
    swap
    · rw [if_neg hcopy]
      exact ⟨0, .refl w, fun _ => rfl⟩
    rw [if_pos hcopy]
    rw [Bool.and_eq_true] at hcopy
    have hcount : Steps S e.flags.anonCount w
        (if e.flags.anonymous then w.addAnon 1 else w) := by
      unfold Flags.anonCount
      split_ifs
      · exact .single (.count w 1)
      · exact .refl w
    have hslot : (if e.flags.anonymous then w.addAnon 1 else w).slot = w.slot := by
      split_ifs <;> rfl
    generalize (if e.flags.anonymous then w.addAnon 1 else w) = w₁ at hcount hslot
    refine ⟨_, (hcount.trans (steps_ptMap (hcount.balanced hb)
      (by decide) ?_ ?_)).trans (steps_memChanged _ s), fun hg => ?_⟩
    · intro q hle hlt e' he'
      obtain rfl : q = page := by omega
      obtain rfl : e = e' := by
        rw [hslot, he] at he'
        exact Option.some.inj he'
      exact Or.inr fun hp => by simp [hp.2] at hcopy
    · exact Or.inl fun _ => by simp [pCow]
    · have hdata : h.dataOk page = true := by
        refine hg.resolve_left fun hno => ?_
        simp [hno e rfl] at hcopy
      simp [ptMap, hdata, mapCost, Flags.anonCount, pCow]

lemma steps_clearCode {e : PtEntry} {f : Flags} (he : w.slot (s, ptIndex page) = some e)
    (hshared : f.shared = e.flags.shared) (hanon : f.anonymous = e.flags.anonymous)
    (hcow : e.flags.cow = true → f.cow = true)
    (hT : e.Pinned → f.cow = true → (s, ptIndex page) ∈ S.replace ∧ S.debug) :
    Steps S 0 w (clearCode s page f w) := by
  unfold clearCode
  split_ifs
  · refine (Steps.single (.flags w s page e _ he ?_ ?_ ?_ ?_)).trans₀ (steps_memChanged _ s)
    · simpa [pCode] using hshared
    · simpa [pCode] using hanon
    · simpa [pCode] using hcow
    · simpa [pCode] using hT
  · exact .single (.flags w s page e f he hshared hanon hcow hT)

lemma clearCode_cow {e e' : PtEntry} {f : Flags} (he : w.slot (s, ptIndex page) = some e)
    (he' : (clearCode s page f w).slot (s, ptIndex page) = some e') : e'.flags.cow = f.cow := by
  unfold clearCode at he'
  split_ifs at he'
  · rw [memChanged_slot, setFlags_slot, update_self, he, Option.map_some, Option.some.injEq] at he'
    simp [← he', pCode]
  · rw [setFlags_slot, update_self, he, Option.map_some, Option.some.injEq] at he'
    rw [← he']

lemma steps_prepareWrite (ptrace : Bool) (hb : w.Balanced)
    (hT : ptrace = true → (s, ptIndex page) ∈ S.replace ∧ S.debug) :
    ∃ n, Steps S n w (prepareWrite h s page ptrace w).1 ∧
      ((ptrace = false ∧ ∀ e, w.slot (s, ptIndex page) = some e → e.flags.cow = false) ∨
        h.dataOk page = true → n = 0) := by
  unfold prepareWrite
  rw [memPt_eq_slot]
  cases he : w.slot (s, ptIndex page) with
  | none => exact ⟨0, .refl w, fun _ => rfl⟩
  | some e =>
    simp only
    by_cases hdeny : (!ptrace && !e.flags.write) = true
    · rw [if_pos hdeny]
      exact ⟨0, .refl w, fun _ => rfl⟩
    rw [if_neg hdeny]
    have hclear : Steps S 0 w (clearCode s page
        (if ptrace = true then e.flags ||| (pWrite ||| pCow) else e.flags) w) := by
      refine steps_clearCode he ?_ ?_ ?_ ?_
      · split_ifs <;> simp [pWrite, pCow]
      · split_ifs <;> simp [pWrite, pCow]
      · intro hc
        split_ifs <;> simp [hc]
      · intro hp hc
        by_cases hpt : ptrace = true
        · exact hT hpt
        · simp [hpt, hp.2] at hc
    obtain ⟨n, hs, hn⟩ := steps_copyForWrite (S := S) (h := h) (s := s)
      (hclear.balanced hb)
    refine ⟨n, hclear.trans₀ hs, fun hg => hn (hg.imp_left fun ⟨hpt, hno⟩ e' he' => ?_)⟩
    rw [clearCode_cow he he', hpt]
    exact hno e rfl

lemma faultIn_mapped {e : PtEntry} (he : w.slot (s, ptIndex page) = some e) :
    faultIn h s page w = (w, true) := by
  have hpt : (w.mem s).pt.memPt page = some e := he
  simp only [faultIn, hpt]

/-- `mem_ptr` replaces no pinned entry, except for the debugger. The drift stays as it is if
no memory is needed, or if the host gives it. -/
theorem steps_memPtr (addr : ℕ) (type : AccessType) (hb : w.Balanced)
    (hT : type = .writePtrace → (s, ptIndex (ShellBox.page addr)) ∈ S.replace ∧ S.debug) :
    ∃ n, Steps S n w (memPtr h s addr type w).1 ∧
      ((∃ e, w.slot (s, ptIndex (ShellBox.page addr)) = some e ∧
          (type = .read ∨ type = .write ∧ e.flags.cow = false)) ∨
        h.Grants (ShellBox.page addr) → n = 0) := by
  obtain ⟨n, hs, hn⟩ := steps_faultIn (S := S) (h := h) (s := s)
    hb
  have hmapped : ∀ e, w.slot (s, ptIndex (ShellBox.page addr)) = some e →
      isMapped w s (ShellBox.page addr) = true ∧ (faultIn h s (ShellBox.page addr) w).1 = w := by
    intro e he
    rw [faultIn_mapped he, isMapped, memPt_eq_slot, he]
    exact ⟨rfl, rfl⟩
  unfold memPtr
  generalize faultIn h s (ShellBox.page addr) w = r at hs hmapped
  obtain ⟨w₁, ok⟩ := r
  have hn' : ((∃ e, w.slot (s, ptIndex (ShellBox.page addr)) = some e ∧
      (type = .read ∨ type = .write ∧ e.flags.cow = false)) ∨
      h.Grants (ShellBox.page addr)) → n = 0 :=
    fun hg => hn (hg.imp_left fun ⟨e, he, _⟩ => (hmapped e he).1)
  cases ok with
  | false => exact ⟨n, hs, hn'⟩
  | true =>
    simp only
    split_ifs with hread
    · exact ⟨n, hs, hn'⟩
    · obtain ⟨m, hs', hm⟩ := steps_prepareWrite (S := S) (h := h) (s := s)
        (type = .writePtrace) (hs.balanced hb) (by simpa using hT)
      have hm' : ((∃ e, w.slot (s, ptIndex (ShellBox.page addr)) = some e ∧
          (type = .read ∨ type = .write ∧ e.flags.cow = false)) ∨
          h.Grants (ShellBox.page addr)) → m = 0 := by
        refine fun hg => hm (hg.imp ?_ fun hg => hg.2)
        rintro ⟨e, he, htype⟩
        obtain ⟨rfl, hcow⟩ := htype.resolve_left hread
        refine ⟨rfl, fun e' he' => ?_⟩
        obtain rfl : w₁ = w := (hmapped e he).2
        obtain rfl : e = e' := Option.some.inj (he.symm.trans he')
        exact hcow
      generalize prepareWrite h s (ShellBox.page addr) (type = .writePtrace) w₁ = r at hs'
      obtain ⟨w₂, ok⟩ := r
      refine ⟨n + m, ?_, fun hg => by rw [hn' hg, hm' hg, add_zero]⟩
      cases ok <;> exact hs.trans hs'

end ShellBox
