import ShellBox.Kernel.Memory.Region

/-!
# What `pt_set_flags` achieves

`pt_set_flags` gives the pages of a range a new protection. Only the permission to write is
looked at when a page is translated, so what the guest can tell afterwards is which pages it
may write. A reserved page without an entry gets one, unless the new protection allows no
access at all.
-/

namespace ShellBox

open Function World

variable {w w' w'' : World} {h : Host} {s page : ℕ}

/-! ### Accesses keep protections -/

def World.KeepsWrite (w w' : World) : Prop :=
  ∀ k e, w.slot k = some e → ∃ e', w'.slot k = some e' ∧ e'.flags.write = e.flags.write

def World.KeepsSlots (w w' : World) : Prop := ∀ k e, w.slot k = some e → w'.slot k = some e

lemma World.KeepsSlots.refl (w : World) : w.KeepsSlots w := fun _ _ he => he

lemma World.KeepsSlots.trans (h : w.KeepsSlots w') (h' : w'.KeepsSlots w'') : w.KeepsSlots w'' :=
  fun k e he => h' k e (h k e he)

lemma World.KeepsSlots.keepsWrite (h : w.KeepsSlots w') : w.KeepsWrite w' :=
  fun k e he => ⟨e, h k e he, rfl⟩

lemma World.KeepsWrite.refl (w : World) : w.KeepsWrite w := (KeepsSlots.refl w).keepsWrite

lemma World.KeepsWrite.trans (h : w.KeepsWrite w') (h' : w'.KeepsWrite w'') :
    w.KeepsWrite w'' := by
  intro k e he
  obtain ⟨e', he', hwrite⟩ := h k e he
  obtain ⟨e'', he'', hwrite'⟩ := h' k e' he'
  exact ⟨e'', he'', hwrite'.trans hwrite⟩

lemma World.KeepsWrite.of_update {k : ℕ × ℕ} {e e' : PtEntry} (he : w.slot k = some e)
    (hslot : w'.slot = update w.slot k (some e')) (hwrite : e'.flags.write = e.flags.write) :
    w.KeepsWrite w' := by
  intro k' e₁ he₁
  by_cases hk : k' = k
  · subst hk
    obtain rfl : e = e₁ := Option.some.inj (he.symm.trans he₁)
    exact ⟨e', by rw [hslot, update_self], hwrite⟩
  · exact ⟨e₁, by rw [hslot, update_of_ne hk, he₁], rfl⟩

lemma keepsSlots_ptMapNothing {start pages : ℕ} {flags : Flags} (hb : w.Balanced)
    (hmark : flags.IsMapFlags)
    (hempty : ∀ q, start ≤ q → q < start + pages → w.slot (s, ptIndex q) = none) :
    w.KeepsSlots (ptMapNothing h s start pages flags w).1 := by
  intro k e he
  rw [(ptMapNothing_range h s start pages flags hb hmark).1.slot k ?_, he]
  rintro ⟨hs, q, hle, hlt, hk⟩
  have hnone := hempty q hle hlt
  rw [← hs, ← hk] at hnone
  exact absurd (hnone.symm.trans he) (by simp)

lemma keepsSlots_mapReserved (hb : w.Balanced) (hempty : w.slot (s, ptIndex page) = none) :
    w.KeepsSlots (mapReserved h s page w).1 := by
  unfold mapReserved
  cases memFindReservation (w.mem s).reservations page with
  | none => exact .refl w
  | some res =>
    have hmark : (res.flags &&& ~~~pGrowsdown).IsMapFlags := by
      simpa [Flags.IsMapFlags, pGrowsdown] using res.mapFlags
    refine keepsSlots_ptMapNothing (w := w.addAnon 1) hb hmark fun q hle hlt => ?_
    obtain rfl : q = page := le_antisymm (Nat.lt_succ_iff.mp hlt) hle
    exact hempty

lemma keepsSlots_growStack {p : ℕ} (hb : w.Balanced) (hp : p ≤ memPages) (hlt : page < p)
    (hempty : ∀ q, page ≤ q → q < p → w.slot (s, q) = none) :
    w.KeepsSlots (growStack h s page p w) := by
  have hend : page + ((if 256 < p - page then page + 256 else p) - page) ≤ p := by
    split_ifs <;> omega
  unfold growStack
  simp only
  generalize (if 256 < p - page then page + 256 else p) - page = count at hend ⊢
  refine keepsSlots_ptMapNothing (w := w.addAnon count) hb ?_ fun q hle hq => ?_
  · exact fun hs => absurd hs Bool.false_ne_true
  · rw [ptIndex_of_lt (by omega)]
    exact hempty q hle (hq.trans_le hend)

lemma keepsSlots_faultIn (hb : w.Balanced) : w.KeepsSlots (faultIn h s page w).1 := by
  unfold faultIn
  simp only
  cases hempty : (w.mem s).pt.memPt page with
  | some e => exact .refl w
  | none =>
    simp only
    cases hnext : (w.mem s).pt.nextMapped memPages ((w.mem s).pt.memNextPage page) with
    | none => exact keepsSlots_mapReserved hb hempty
    | some p =>
      obtain ⟨hlt, hmem, hgap⟩ := PageTable.nextMapped_gap _ hempty hnext
      simp only
      split_ifs
      · exact keepsSlots_growStack hb hmem.le hlt hgap
      · exact .refl w
      · exact keepsSlots_mapReserved hb hempty

lemma clearCode_mapped {e : PtEntry} (hb : w.Balanced)
    (he : w.slot (s, ptIndex page) = some e) :
    ∃ f : Flags, f.write = e.flags.write ∧ f.cow = e.flags.cow ∧
      (clearCode s page e.flags w).slot =
        update w.slot (s, ptIndex page) (some { e with flags := f }) ∧
      (clearCode s page e.flags w).Balanced := by
  have hb' : (clearCode s page e.flags w).Balanced :=
    (steps_clearCode (S := ⟨Set.univ, ∅, True⟩) he rfl rfl id fun _ _ =>
      ⟨Set.mem_univ _, trivial⟩).balanced hb
  unfold clearCode at hb' ⊢
  split_ifs at hb' ⊢
  · refine ⟨e.flags &&& ~~~pCode, by simp [pCode], by simp [pCode], ?_, hb'⟩
    rw [memChanged_slot, setFlags_slot, he, Option.map_some]
  · refine ⟨e.flags, rfl, rfl, ?_, hb'⟩
    rw [setFlags_slot, he, Option.map_some]

lemma copyForWrite_slot {e : PtEntry} (hb : w.Balanced)
    (he : w.slot (s, ptIndex page) = some e) :
    (copyForWrite h s page w).slot =
      if e.flags.cow && h.mmapOk page && h.dataOk page then
        update w.slot (s, ptIndex page)
          (some { data := w.nextData, offset := 0, flags := e.flags &&& ~~~pCow })
      else w.slot := by
  unfold copyForWrite
  rw [memPt_eq_slot, he]
  simp only
  by_cases hcopy : (e.flags.cow && h.mmapOk page) = true
  swap
  · rw [if_neg hcopy, if_neg (by simp_all)]
  rw [if_pos hcopy, memChanged_slot, hcopy, Bool.true_and]
  have hslot : (if e.flags.anonymous then w.addAnon 1 else w).slot = w.slot := by
    split_ifs <;> rfl
  have hnext : (if e.flags.anonymous then w.addAnon 1 else w).nextData = w.nextData := by
    split_ifs <;> rfl
  have hb' : (if e.flags.anonymous then w.addAnon 1 else w).Balanced := by
    split_ifs <;> exact hb
  generalize (if e.flags.anonymous then w.addAnon 1 else w) = w₁ at hslot hnext hb'
  split_ifs with hdata
  · obtain ⟨w₂, heq, hloop⟩ := ptMap_ok (S := ⟨Set.univ, ∅, True⟩) (s := s)
      (fun i => (w.load { data := e.data, offset := e.offset + i }).getD 0) 0
      (e.flags &&& ~~~pCow) hb' (show 1 ≤ memPages by decide) hdata
      (fun q _ _ e _ => Or.inl (Set.mem_univ _)) (Or.inr trivial)
    rw [heq]
    funext k
    by_cases hk : k = (s, ptIndex page)
    · subst hk
      rw [update_self, hloop.inside page le_rfl (Nat.lt_succ_self page), newEntry, hnext,
        Nat.sub_self, Nat.zero_mul]
    · rw [update_of_ne hk, ← hslot]
      apply hloop.outside
      intro q hle hlt
      obtain rfl : q = page := le_antisymm (Nat.lt_succ_iff.mp hlt) hle
      exact hk
  · simpa [ptMap, hdata] using hslot

lemma keepsWrite_prepareWrite (hb : w.Balanced) :
    w.KeepsWrite (prepareWrite h s page false w).1 := by
  unfold prepareWrite
  rw [memPt_eq_slot]
  cases he : w.slot (s, ptIndex page) with
  | none => exact .refl w
  | some e =>
    simp only [Bool.not_false, Bool.true_and, Bool.false_eq_true, if_false]
    by_cases hdeny : (!e.flags.write) = true
    · rw [if_pos hdeny]
      exact .refl w
    rw [if_neg hdeny]
    obtain ⟨f, hwrite, -, hclear, hb'⟩ := clearCode_mapped hb he
    have he' : (clearCode s page e.flags w).slot (s, ptIndex page) =
        some { e with flags := f } := by
      rw [hclear, update_self]
    refine (KeepsWrite.of_update he hclear hwrite).trans ?_
    have hcopy := copyForWrite_slot (h := h) hb' he'
    split_ifs at hcopy
    · exact .of_update he' hcopy (by simp [pCow])
    · exact KeepsSlots.keepsWrite fun k e₁ he₁ => hcopy ▸ he₁

lemma keepsWrite_memPtr {addr : ℕ} {type : AccessType} (hb : w.Balanced)
    (htype : type ≠ .writePtrace) : w.KeepsWrite (memPtr h s addr type w).1 := by
  have hb' : (faultIn h s (ShellBox.page addr) w).1.Balanced := by
    obtain ⟨n, hs, -⟩ := steps_faultIn (S := ⟨Set.univ, ∅, True⟩) hb
    exact hs.balanced hb
  have hfault : w.KeepsWrite (faultIn h s (ShellBox.page addr) w).1 :=
    (keepsSlots_faultIn hb).keepsWrite
  unfold memPtr
  generalize faultIn h s (ShellBox.page addr) w = r at hb' hfault
  obtain ⟨w₁, ok⟩ := r
  cases ok with
  | false => exact hfault
  | true =>
    simp only
    split_ifs
    · exact hfault
    · have hprep : w₁.KeepsWrite (prepareWrite h s (ShellBox.page addr) false w₁).1 :=
        keepsWrite_prepareWrite hb'
      simp only [htype, decide_false]
      generalize prepareWrite h s (ShellBox.page addr) false w₁ = r at hprep
      obtain ⟨w₂, ok⟩ := r
      cases ok <;> exact hfault.trans hprep

def MemOp.isAccess : MemOp → Bool
  | access _ _ type => type ≠ .writePtrace
  | write .. => true
  | _ => false

lemma keepsWrite_step (op : Host × MemOp) (hv : w.Valid) (hop : op.2.isAccess = true) :
    w.KeepsWrite (MemOp.step w op) := by
  obtain ⟨h, op⟩ := op
  cases op with
  | access s addr type => exact keepsWrite_memPtr hv.balanced (by simpa [MemOp.isAccess] using hop)
  | write s addr byte =>
    have haccess : w.KeepsWrite (memPtr h s addr .write w).1 :=
      keepsWrite_memPtr hv.balanced (by simp)
    change w.KeepsWrite (writeByte h s addr byte w)
    rw [writeByte_eq]
    cases (memPtr h s addr .write w).2 with
    | none => exact haccess
    | some p => exact haccess.trans (KeepsSlots.keepsWrite fun k e he => he)
  | _ => exact absurd hop (by simp [MemOp.isAccess])

/-- Protections outlast any run of loads and stores, in whatever order. -/
theorem keepsWrite_run {w : World} (ops : List (Host × MemOp)) (hv : w.Valid)
    (hops : ∀ op ∈ ops, op.2.isAccess = true) : w.KeepsWrite (run MemOp.step w ops) := by
  induction ops generalizing w with
  | nil => exact .refl w
  | cons op ops ih =>
    rw [run_cons]
    have hstep := keepsWrite_step op hv (hops op List.mem_cons_self)
    exact hstep.trans (ih (MemOp.valid_step op hv) fun op' hop' =>
      hops op' (List.mem_cons_of_mem _ hop'))

/-! ### What a protection allows -/

/-- `mem_ptr` lets the guest read the page, and write it exactly if `write` says so. A page
that awaits a copy needs memory from the host for a store. -/
def World.Allows (w : World) (s q : ℕ) (write : Bool) : Prop :=
  ∀ (h : Host) (addr : ℕ), ShellBox.page addr = q →
    (memPtr h s addr .read w).2.isSome = true ∧
    (write = false → (memPtr h s addr .write w).2 = none) ∧
    (write = true → h.Grants q → (memPtr h s addr .write w).2.isSome = true)

lemma memPtr_write_allowed {e : PtEntry} {addr : ℕ} (hb : w.Balanced)
    (he : w.slot (s, ptIndex (ShellBox.page addr)) = some e) (hwrite : e.flags.write = true)
    (hg : h.Grants (ShellBox.page addr)) : (memPtr h s addr .write w).2.isSome = true := by
  have hpt : (w.mem s).pt.memPt (ShellBox.page addr) = some e := he
  obtain ⟨f, hfwrite, hfcow, hclear, hb'⟩ := clearCode_mapped hb he
  have he' : (clearCode s (ShellBox.page addr) e.flags w).slot (s, ptIndex (ShellBox.page addr)) =
      some { e with flags := f } := by
    rw [hclear, update_self]
  have hcopy := copyForWrite_slot (h := h) hb' he'
  -- after the copy the entry is writable, whether or not it awaited one
  have hfinal : ∃ e', (copyForWrite h s (ShellBox.page addr)
      (clearCode s (ShellBox.page addr) e.flags w)).slot (s, ptIndex (ShellBox.page addr)) =
        some e' ∧ e'.flags.writable = true := by
    split_ifs at hcopy with hcow
    · refine ⟨_, by rw [hcopy, update_self], ?_⟩
      simp [Flags.writable, pCow, hfwrite, hwrite]
    · refine ⟨_, by rw [hcopy, he'], ?_⟩
      have hnot : f.cow = false := by simpa [hg.1, hg.2] using hcow
      simp [Flags.writable, hnot, hfwrite, hwrite]
  obtain ⟨e', hslot, hwritable⟩ := hfinal
  rw [← memPt_eq_slot] at hslot
  simp [memPtr, faultIn, prepareWrite, memPtrNofault, hpt, hwrite, hslot, hwritable]

lemma World.allows_of_slot {q : ℕ} {e : PtEntry} (hb : w.Balanced)
    (he : w.slot (s, ptIndex q) = some e) : w.Allows s q e.flags.write := by
  rintro h addr rfl
  refine ⟨by rw [memPtr_read_mapped h he]; rfl, fun hwrite => ?_, fun hwrite hg => ?_⟩
  · rw [memPtr_write_refused h he hwrite]
  · exact memPtr_write_allowed hb he hwrite hg

/-! ### The loop of `pt_set_flags` -/

def World.Writes (w : World) (k : ℕ × ℕ) (write : Bool) : Prop :=
  ∃ e, w.slot k = some e ∧ e.flags.write = write

/-- What protecting the pages from `lo` on and below `hi` achieves. Page numbers beyond the
address space name pages a second time, so a page may be protected more than once. -/
structure Protects (h : Host) (s : ℕ) (prot : Prot) (lo hi : ℕ) (w : World)
    (r : World × Except Errno Unit) : Prop where
  outside : w.SameOutside (pageSlots s lo hi) r.1
  succeeds : (∀ q, lo ≤ q → q < hi → h.protectOk q = true) → r.2 = .ok ()
  keeps : ∀ k, w.Writes k prot.write → r.1.Writes k prot.write
  mapped : r.2 = .ok () → ∀ q, lo ≤ q → q < hi → isMapped w s q = true →
    r.1.Writes (s, ptIndex q) prot.write
  reserved : r.2 = .ok () → prot.flags.isProtNone = false →
    (∀ q, lo ≤ q → q < hi → h.Grants q) →
    ∀ q, lo ≤ q → q < hi → r.1.Writes (s, ptIndex q) prot.write

namespace Protects

variable {prot : Prot} {lo mid hi : ℕ} {w₁ : World} {r : World × Except Errno Unit}

lemma extend (hr : Protects h s prot mid hi w₁ r) (hle : lo ≤ mid) (hhi : mid ≤ hi)
    (hout : w.SameOutside (pageSlots s lo mid) w₁)
    (hkeeps : ∀ k, w.Writes k prot.write → w₁.Writes k prot.write)
    (hstay : ∀ q, isMapped w s q = true → isMapped w₁ s q = true)
    (hmapped : ∀ q, lo ≤ q → q < mid → isMapped w s q = true →
      w₁.Writes (s, ptIndex q) prot.write)
    (hreserved : prot.flags.isProtNone = false → (∀ q, lo ≤ q → q < hi → h.Grants q) →
      ∀ q, lo ≤ q → q < mid → w₁.Writes (s, ptIndex q) prot.write) :
    Protects h s prot lo hi w r := by
  constructor
  · apply (hout.mono _).trans (hr.outside.mono _)
    · exact pageSlots_mono le_rfl hhi
    · exact pageSlots_mono hle le_rfl
  · exact fun hall => hr.succeeds fun q hq => hall q (hle.trans hq)
  · exact fun k hk => hr.keeps k (hkeeps k hk)
  · intro hok q hq hlt hmap
    rcases lt_or_ge q mid with hqm | hqm
    · exact hr.keeps _ (hmapped q hq hqm hmap)
    · exact hr.mapped hok q hqm hlt (hstay q hmap)
  · intro hok hprot hgrants q hq hlt
    rcases lt_or_ge q mid with hqm | hqm
    · exact hr.keeps _ (hreserved hprot hgrants q hq hqm)
    · exact hr.reserved hok hprot (fun q hq => hgrants q (hle.trans hq)) q hqm hlt

lemma done (w : World) (hle : hi ≤ lo) : Protects h s prot lo hi w (w.memChanged s, .ok ()) where
  outside := .memChanged w s
  succeeds _ := rfl
  keeps k hk := by rwa [World.Writes, memChanged_slot]
  mapped _ _ hq hlt := absurd (lt_of_lt_of_le hlt hle) (Nat.not_lt.mpr hq)
  reserved _ _ _ _ hq hlt := absurd (lt_of_lt_of_le hlt hle) (Nat.not_lt.mpr hq)

end Protects

lemma unmappedRun_bounds {stop : ℕ} (hlt : page < stop) (hunmapped : isMapped w s page = false) :
    0 < unmappedRun w s stop (stop - page) page ∧
      page + unmappedRun w s stop (stop - page) page ≤ stop := by
  have hle : ∀ fuel p, p ≤ stop → p + unmappedRun w s stop fuel p ≤ stop := by
    intro fuel
    induction fuel with
    | zero => exact fun p hp => hp
    | succ fuel ih =>
      intro p hp
      unfold unmappedRun
      split_ifs with hpage
      · have := ih (p + 1) hpage.1
        omega
      · exact hp
  refine ⟨?_, hle _ page hlt.le⟩
  obtain ⟨fuel, hfuel⟩ : ∃ fuel, stop - page = fuel + 1 := ⟨stop - page - 1, by omega⟩
  rw [hfuel, unmappedRun, if_pos ⟨hlt, hunmapped⟩]
  exact Nat.succ_pos _

lemma isMapped_eq_slot (w : World) (s q : ℕ) :
    isMapped w s q = (w.slot (s, ptIndex q)).isSome := rfl

lemma World.KeepsWrite.writes (hk : w.KeepsWrite w') {k : ℕ × ℕ} {write : Bool}
    (hw : w.Writes k write) : w'.Writes k write := by
  obtain ⟨e, he, hwrite⟩ := hw
  obtain ⟨e', he', hwrite'⟩ := hk k e he
  exact ⟨e', he', hwrite'.trans hwrite⟩

lemma World.KeepsWrite.isMapped (hk : w.KeepsWrite w') {q : ℕ}
    (hq : isMapped w s q = true) : isMapped w' s q = true := by
  obtain ⟨e, he⟩ := Option.isSome_iff_exists.mp hq
  obtain ⟨e', he', -⟩ := hk (s, ptIndex q) e he
  rw [isMapped_eq_slot, he']
  rfl

/-- The second loop of `pt_set_flags`, by induction on the rounds that are left. Reserved pages
lie in the address space. -/
lemma setFlagsLoop_protects {prot : Prot} {stop : ℕ} (h : Host) (fuel page : ℕ) {w : World}
    (hfuel : stop ≤ page + fuel) (hb : w.Balanced)
    (hin : ∀ q, page ≤ q → q < stop → isMapped w s q = false → q < memPages) :
    Protects h s prot page stop w (setFlagsLoop h s stop prot.flags fuel page w) := by
  induction fuel generalizing page w with
  | zero => exact .done w hfuel
  | succ fuel ih =>
    unfold setFlagsLoop
    by_cases hlt : page < stop
    swap
    · rw [if_neg hlt]
      exact .done w (Nat.not_lt.mp hlt)
    rw [if_pos hlt, memPt_eq_slot]
    cases he : w.slot (s, ptIndex page) with
    | none =>
      have hunmapped : isMapped w s page = false := by rw [isMapped_eq_slot, he]; rfl
      simp only [isProtNone_and_pRwx]
      split_ifs with hnone
      · -- the page stays reserved: the new protection allows nothing
        refine (ih (page + 1) (by omega) hb fun q hq => hin q (by omega)).extend
          (Nat.le_succ page) hlt (.refl w) (fun _ hk => hk) (fun _ hq => hq) ?_ ?_
        · intro q hq hq' hmap
          obtain rfl : q = page := le_antisymm (Nat.lt_succ_iff.mp hq') hq
          simp [hunmapped] at hmap
        · simp [hnone]
      · obtain ⟨hpos, hend⟩ := unmappedRun_bounds hlt hunmapped
        have hrun := fun q => unmappedRun_spec w s stop (stop - page) page (q := q)
        generalize unmappedRun w s stop (stop - page) page = runLen at hpos hend hrun ⊢
        have hmark : (prot.flags ||| pAnonymous).IsMapFlags := fun hs =>
          absurd hs Bool.false_ne_true
        obtain ⟨hout, hentries⟩ := ptMapNothing_range h s page runLen (prot.flags ||| pAnonymous)
          hb hmark
        have hb' : (ptMapNothing h s page runLen (prot.flags ||| pAnonymous) w).1.Balanced :=
          (steps_ptMapNothing (S := ⟨Set.univ, ∅, True⟩) (prot.flags ||| pAnonymous) hb
            (fun q _ _ e _ => Or.inl (Set.mem_univ _)) (Or.inl hmark)).balanced hb
        have hkeeps : w.KeepsWrite (ptMapNothing h s page runLen (prot.flags ||| pAnonymous) w).1 := by
          refine (keepsSlots_ptMapNothing hb hmark fun q hle hq => ?_).keepsWrite
          simpa [isMapped_eq_slot] using hrun q hle hq
        refine (ih (page + runLen) (by omega) hb' ?_).extend
          (Nat.le_add_right _ _) hend hout (fun _ hk => hkeeps.writes hk)
          (fun _ hq => hkeeps.isMapped hq) ?_ ?_
        · intro q hq hq' hnot
          refine hin q (by omega) hq' (Bool.eq_false_iff.mpr fun hmap => ?_)
          exact absurd (hnot.symm.trans (hkeeps.isMapped hmap)) (by simp)
        · intro q hq hq' hmap
          exact absurd (hmap.symm.trans (hrun q hq hq')) (by simp)
        · intro _ hgrants q hq hq'
          have hlast := hin (page + runLen - 1) (by omega) (by omega) (hrun _ (by omega) (by omega))
          have hok : (ptMapNothing h s page runLen (prot.flags ||| pAnonymous) w).2 = .ok () :=
            ptMapNothing_of_grants (hgrants page le_rfl hlt) (by omega)
          obtain ⟨o, hslot, -⟩ := hentries hok q hq hq'
          exact ⟨_, hslot, by simp [Prot.flags, pAnonymous]⟩
    | some e =>
      simp only
      have hset : ∀ k, k = (s, ptIndex page) ∨ w.Writes k prot.write →
          (w.setFlags s page (prot.flags ||| (e.flags &&& pMetaFlags))).Writes k prot.write := by
        intro k hk
        unfold World.Writes
        rw [setFlags_slot, he]
        by_cases hpage : k = (s, ptIndex page)
        · subst hpage
          rw [update_self]
          refine ⟨_, rfl, ?_⟩
          simp [Prot.flags, pMetaFlags, pAnonymous, pGrowsdown, pCow, pShared, pCode]
        · rw [update_of_ne hpage]
          exact hk.resolve_left hpage
      have hone : ∀ q, page ≤ q → q < page + 1 →
          (w.setFlags s page (prot.flags ||| (e.flags &&& pMetaFlags))).Writes (s, ptIndex q)
            prot.write := by
        intro q hq hq'
        obtain rfl : q = page := le_antisymm (Nat.lt_succ_iff.mp hq') hq
        exact hset _ (Or.inl rfl)
      have hb' := (micro_protect (S := ⟨∅, ∅, False⟩) prot he).balanced hb
      have hout := SameOutside.setFlags w s page (prot.flags ||| (e.flags &&& pMetaFlags))
      split_ifs with hfail
      · refine ⟨hout.mono (pageSlots_mono le_rfl hlt), ?_, fun k hk => hset k (Or.inr hk), ?_, ?_⟩
        · intro hall
          simp [hall page le_rfl hlt] at hfail
        · exact fun hok => absurd hok (by simp)
        · exact fun hok => absurd hok (by simp)
      · refine (ih (page + 1) (by omega) hb' ?_).extend (Nat.le_succ page) hlt hout
          (fun k hk => hset k (Or.inr hk)) (fun q hq => by rwa [isMapped_setFlags])
          (fun q hq hq' _ => hone q hq hq') fun _ _ => hone
        intro q hq hq' hnot
        rw [isMapped_setFlags] at hnot
        exact hin q (by omega) hq' hnot

/-! ### `pt_set_flags` -/

/-- `pt_set_flags` leaves everything outside its range alone. When it fails, although the host
refuses no change of protection, nothing has changed at all. When it succeeds, every page that
had an entry, and every reserved page if the new protection allows some access, can be read
afterwards, and written exactly if the new protection says so, whatever is loaded and stored
in between. A reserved page needs memory from the host. -/
theorem ptSetFlags_protects (hv : w.Valid) (h : Host) (s start pages : ℕ) (prot : Prot) :
    let res := ptSetFlags h s start pages prot.flags w
    w.SameOutside (pageSlots s start (start + pages)) res.1 ∧
    (∀ err, res.2 = .error err →
      (∀ q, start ≤ q → q < start + pages → h.protectOk q = true) → res.1 = w) ∧
    (res.2 = .ok () → ∀ q, start ≤ q → q < start + pages →
      isMapped w s q = true ∨ (prot.flags.isProtNone = false ∧
        ∀ p, start ≤ p → p < start + pages → h.Grants p) →
      ∀ ops : List (Host × MemOp), (∀ op ∈ ops, op.2.isAccess = true) →
        (run MemOp.step res.1 ops).Allows s q prot.write) := by
  intro res
  obtain ⟨n, hsteps, -⟩ := steps_ptSetFlags (S := ⟨∅, ∅, False⟩) prot h s start pages hv.balanced
  have hvalid : res.1.Valid := hsteps.valid hv
  -- the first loop either lets the second one run, or refuses the whole call
  have hres : Protects h s prot start (start + pages) w res ∨ res = (w, .error .enomem) := by
    simp only [res, ptSetFlags]
    split_ifs with hall
    · left
      apply setFlagsLoop_protects h pages start le_rfl hv.balanced
      intro q hle hlt hnot
      have hpage := allPages_iff.mp hall q hle hlt
      rw [hnot, Bool.false_or] at hpage
      obtain ⟨r, hr⟩ := Option.isSome_iff_exists.mp hpage
      exact fits_of_memFindReservation hr
    · exact Or.inr rfl
  rcases hres with hres | hres
  swap
  · rw [hres]
    exact ⟨.refl w, fun _ _ _ => rfl, fun hok => absurd hok (by simp)⟩
  refine ⟨hres.outside, fun err herr hall => ?_, fun hok q hle hlt hpage ops hops => ?_⟩
  · exact absurd (herr.symm.trans (hres.succeeds hall)) (by simp)
  · have hwrites : res.1.Writes (s, ptIndex q) prot.write := by
      rcases hpage with hmap | ⟨hprot, hgrants⟩
      · exact hres.mapped hok q hle hlt hmap
      · exact hres.reserved hok hprot hgrants q hle hlt
    obtain ⟨e, he, hwrite⟩ := (keepsWrite_run ops hvalid hops).writes hwrites
    rw [← hwrite]
    exact World.allows_of_slot (MemOp.valid_run ops hvalid).balanced he

/-- A page that is made read-only, and one that is made writable again. -/
theorem ptSetFlags_protects_page :
    let w := (ptMapNothing {} 0 5 1 (pRead ||| pWrite) World.init).1
    (run MemOp.step (ptSetFlags {} 0 5 1 (Prot.flags ⟨true, false, false⟩) w).1
      [({}, .access 0 0x5000 .read)]).Allows 0 5 false := by
  intro w
  have hv : w.Valid := MemOp.valid_step
    ({}, .mapNothing 0 ⟨5, 1, by decide⟩ ⟨pRead ||| pWrite, fun _ => rfl⟩) World.valid_init
  exact (ptSetFlags_protects hv {} 0 5 1 ⟨true, false, false⟩).2.2 (by decide) 5 le_rfl
    (by decide) (Or.inl (by decide)) _ (by decide)

/-- Reading is never refused: `P_READ` is ignored. A reserved page keeps the protection of its
reservation when the new one allows nothing, or when the host gives no memory for it. And a
host that refuses to change the protection of one page leaves the pages before it changed. -/
theorem ptSetFlags_not_exact :
    let mapped := (ptMapNothing {} 0 5 2 (pRead ||| pWrite) World.init).1
    let reserved :=
      (ptMapLazy {} 0 ⟨5, 1, by decide⟩ ⟨pRead ||| pWrite, fun _ => rfl⟩ World.init).1
    let hidden := ptSetFlags {} 0 5 1 (Prot.flags ⟨false, false, false⟩) mapped
    let guarded := ptSetFlags {} 0 5 1 (Prot.flags ⟨false, false, false⟩) reserved
    let poor := ptSetFlags { mmapOk := fun _ => false } 0 5 1 (Prot.flags ⟨true, false, false⟩)
      reserved
    let bare := (ptMapNothing {} 0 5 2 {} World.init).1
    let refused := ptSetFlags { protectOk := (· = 5) } 0 5 2 (Prot.flags ⟨true, true, true⟩) bare
    (hidden.2 = .ok () ∧ (memPtr {} 0 0x5000 .read hidden.1).2.isSome = true) ∧
    (guarded.2 = .ok () ∧ (memPtr {} 0 0x5000 .write guarded.1).2.isSome = true) ∧
    (poor.2 = .ok () ∧ (memPtr {} 0 0x5000 .write poor.1).2.isSome = true) ∧
    (refused.2 = .error .enomem ∧ (memPtr {} 0 0x5000 .write bare).2 = none ∧
      (memPtr {} 0 0x5000 .write refused.1).2.isSome = true) := by
  decide +kernel

end ShellBox
