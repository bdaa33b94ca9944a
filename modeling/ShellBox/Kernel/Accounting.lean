import ShellBox.Kernel.Memory.Frame
import ShellBox.Kernel.Mmap

/-!
# The anonymous page count

The count is meant to be the number of anonymous entries of all address spaces. The system
calls keep it so, except where entries are made without being counted: an eager `PROT_NONE`
mapping, reserved pages that `mprotect` commits, a growing `mremap`, a demand-mapped page,
and a fault for which the host has no memory. `Counted` says that a call is none of these.
-/

namespace ShellBox

open World

variable {w : World} {h : Host} {s addr : ℕ}

/-- The accounting looks at neither pinned pages nor second references. -/
def anyScope : Scope := ⟨Set.univ, Set.univ, True⟩

lemma mayReplace_any (w : World) (k : ℕ × ℕ) : MayReplace anyScope w k :=
  fun _ _ => Or.inl (Set.mem_univ k)

/-! ### When a call keeps the count -/

/-- An anonymous `PROT_NONE` mapping that is not made lazily and gets a place. -/
def mapsProtNone (w : World) (s addr len prot : ℕ) (flags : MmapFlags) : Prop :=
  prot = 0 ∧ flags.anonymous = true ∧ pageRoundUp len < 0x8000 ∧
    ∃ hpages r m, mmapPlace w s addr (pageRoundUp len) hpages flags.fixed false = (.ok r, m)

/-- `mprotect` gives access to reserved pages of a range that is all mapped or reserved. -/
def commitsReserved (w : World) (s addr len prot : ℕ) : Prop :=
  pgoffset addr = 0 ∧ prot ≠ 0 ∧ prot < 8 ∧
    allPages (fun q => isMapped w s q || (memFindReservation (w.mem s).reservations q).isSome)
      (page addr) (pageRoundUp len) = true ∧
    allPages (isMapped w s) (page addr) (pageRoundUp len) = false

/-- `mremap` grows an anonymous mapping into a hole behind it. -/
def growsMapping (w : World) (s addr : ℕ) (oldLen newLen : BitVec 32) : Prop :=
  pgoffset addr = 0 ∧ page oldLen.toNat < page newLen.toNat ∧
    (∃ e, (w.mem s).pt.memPt (page addr) = some e ∧ e.flags.anonymous = true) ∧
    allPages (isMapped w s) (page addr) (page oldLen.toNat) = true ∧
    ptIsHole w s (page addr + page oldLen.toNat) (page newLen.toNat - page oldLen.toNat) = true

def accessServed (h : Host) (w : World) (s addr : ℕ) (type : AccessType) : Prop :=
  (∃ e, w.slot (s, ptIndex (page addr)) = some e ∧
    (type = .read ∨ type = .write ∧ e.flags.cow = false)) ∨ h.Grants (page addr)

namespace Syscall

def Counted (h : Host) (g : Guest) : Syscall → Prop
  | mmap s addr len prot flags _ => ¬ mapsProtNone g.world s addr len prot flags
  | mprotect s addr len prot => ¬ commitsReserved g.world s addr len prot
  | mremap s addr oldLen newLen => ¬ growsMapping g.world s addr oldLen newLen
  | access s addr type => accessServed h g.world s addr type
  | gpf s addr isWrite pc =>
    accessServed h g.world s addr (if isWrite then .write else .read) ∧
      ∀ w, memPtr h s addr (if isWrite then .write else .read) g.world = (w, none) →
        demandMaps w s addr isWrite pc = false ∨ isMapped w s (page addr) = true
  | munmap .. | brk .. | fork .. | destroy .. => True

end Syscall

/-! ### The calls one by one -/

lemma steps_mapNothing_any (start pages : ℕ) (flags : Flags) (hb : w.Balanced) :
    Steps anyScope (-mapCost (ptMapNothing h s start pages flags w).2 pages pAnonymous) w
      (ptMapNothing h s start pages flags w).1 :=
  steps_ptMapNothing flags hb (fun _ _ _ => mayReplace_any w _) (Or.inr trivial)

lemma steps_countedMap (start pages : ℕ) (flags : Flags) (hb : w.Balanced) :
    Steps anyScope 0 w
      (match ptMapNothing h s start pages flags (w.addAnon pages) with
        | (w, .error _) => w.addAnon (-pages)
        | (w, .ok _) => w) := by
  have hcount : Steps anyScope pages w (w.addAnon pages) := .single (.count w pages)
  have hmap := steps_mapNothing_any (h := h) (s := s) start pages flags (hcount.balanced hb)
  generalize ptMapNothing h s start pages flags (w.addAnon pages) = r at hmap
  obtain ⟨w', res⟩ := r
  cases res with
  | error e =>
    refine ((hcount.trans hmap).tail (.count w' (-pages))).cast ?_
    simp [mapCost]
  | ok u =>
    refine (hcount.trans hmap).cast ?_
    simp [mapCost, Flags.anonCount, pAnonymous]

lemma steps_ptMapLazy {r : PageRange} {flags : { f : Flags // f.IsMapFlags }} :
    Steps anyScope 0 w (ptMapLazy h s r flags w).1 := by
  unfold ptMapLazy
  simp only
  split_ifs
  · refine Steps.trans₀ (steps_setMem ?_) (steps_memChanged _ s)
    rfl
  · exact .refl w

lemma mmapResult_world (start : ℕ) (r : World × Except Errno Unit) :
    (mmapResult start r).1 = r.1 := by
  obtain ⟨w, _ | _⟩ := r <;> rfl

lemma steps_mmapEager (r : PageRange) (prot : Prot) (shared : Bool) (hb : w.Balanced) :
    ∃ n, Steps anyScope n w (mmapEager h s r prot shared w).1 ∧
      (prot.flags.isProtNone = false → n = 0) := by
  unfold mmapEager
  cases hnone : prot.flags.isProtNone with
  | true =>
    simp only [Bool.not_true, Bool.false_and, Bool.false_eq_true, if_false, if_true]
    have hmap := steps_mapNothing_any (h := h) (s := s) r.start r.pages
      (mmapProt prot shared).1 hb
    generalize ptMapNothing h s r.start r.pages (mmapProt prot shared).1 w = res at hmap
    obtain ⟨w', _ | _⟩ := res <;> exact ⟨_, hmap, by simp⟩
  | false =>
    refine ⟨0, ?_, fun _ => rfl⟩
    by_cases hlimit : (anonMmapLimitPages : ℤ) < w.anonPageCount + r.pages
    · simp only [hlimit, Bool.not_false, decide_true, Bool.and_self, if_true]
      exact .refl w
    · simp only [hlimit, Bool.not_false, decide_false, Bool.and_false, Bool.false_eq_true, if_false]
      have hmap := steps_countedMap (h := h) (s := s) r.start r.pages
        (mmapProt prot shared).1 hb
      generalize ptMapNothing h s r.start r.pages (mmapProt prot shared).1 (w.addAnon r.pages) = res
        at hmap
      obtain ⟨w', _ | _⟩ := res <;> exact hmap

lemma steps_mmapAt (r : PageRange) (prot : Prot) (flags : MmapFlags) (file : MmapFile)
    (hb : w.Balanced) :
    ∃ n, Steps anyScope n w (mmapAt h s r prot flags file w).1 ∧
      (¬ (flags.anonymous = true ∧ prot.flags.isProtNone = true ∧ r.pages < 0x8000) → n = 0) := by
  unfold mmapAt
  by_cases hanon : flags.anonymous = true
  · simp only [hanon, if_true]
    split_ifs with hlazy hlazy'
    · exact ⟨0, mmapResult_world _ _ ▸ steps_ptMapLazy, fun _ => rfl⟩
    · exact ⟨0, mmapResult_world _ _ ▸ steps_ptMapLazy, fun _ => rfl⟩
    · obtain ⟨n, hs, hn⟩ := steps_mmapEager (h := h) (s := s) r prot flags.shared hb
      refine ⟨n, hs, fun hcond => hn (Bool.eq_false_iff.mpr fun hnone => hcond ⟨trivial, hnone, ?_⟩)⟩
      simpa [hnone] using hlazy'
  · simp only [hanon]
    cases file with
    | badFd => exact ⟨0, .refl w, fun _ => rfl⟩
    | noMmap => exact ⟨0, .refl w, fun _ => rfl⟩
    | mapped memory correction =>
      refine ⟨0, ?_, fun _ => rfl⟩
      rw [if_neg Bool.false_ne_true, mmapResult_world]
      refine (steps_ptMap hb ?_ (fun _ _ _ => mayReplace_any w _) (Or.inr trivial)).cast ?_
      · have := r.fits
        omega
      · cases (ptMap h s r.start r.pages memory correction (mmapProt prot flags.shared).1 w).2 <;>
          simp [mapCost, Flags.anonCount, mmapProt, Prot.flags]

lemma placeInHole_pt (m : Mem) {pages : ℕ} (hpages : 0 < pages) (preferHigh : Bool) :
    (placeInHole m pages hpages preferHigh).2.pt = m.pt ∧
      ∀ r, (placeInHole m pages hpages preferHigh).1 = .ok r → r.pages = pages := by
  have himpl : (ptFindHoleImpl m pages preferHigh).2.pt = m.pt := by
    unfold ptFindHoleImpl
    cases (if preferHigh then ptFindHoleHighFree m pages else none) <;>
      cases ptFindHoleLow m pages <;> rfl
  unfold placeInHole
  split
  · rename_i start m' heq
    rw [heq] at himpl
    exact ⟨himpl, fun r hr => by simpa using (congrArg PageRange.pages (Except.ok.inj hr)).symm⟩
  · rename_i m' heq
    rw [heq] at himpl
    exact ⟨himpl, fun r hr => by simp at hr⟩

lemma mmapPlace_pt (w : World) (s addr : ℕ) {pages : ℕ} (hpages : 0 < pages)
    (fixed preferHigh : Bool) :
    (mmapPlace w s addr pages hpages fixed preferHigh).2.pt = (w.mem s).pt ∧
      ∀ r, (mmapPlace w s addr pages hpages fixed preferHigh).1 = .ok r → r.pages = pages := by
  have hhole := placeInHole_pt (w.mem s) hpages preferHigh
  unfold mmapPlace
  simp only
  split_ifs
  all_goals first
    | exact hhole
    | exact ⟨rfl, fun r hr => Except.ok.inj hr ▸ rfl⟩
    | exact ⟨rfl, fun r hr => hr.elim⟩

lemma isProtNone_ofWord {word : ℕ} {prot : Prot} (h : Prot.ofWord word = some prot) :
    prot.flags.isProtNone = true ↔ word = 0 := by
  unfold Prot.ofWord at h
  split_ifs at h with hlt
  obtain rfl := Option.some.inj h
  have hall : ∀ word < 8, ((Prot.mk (word.testBit 0) (word.testBit 1)
      (word.testBit 2)).flags.isProtNone = true ↔ word = 0) := by decide
  exact hall word hlt

lemma steps_sysMmap {len prot : ℕ} {flags : MmapFlags} {file : MmapFile} (hb : w.Balanced) :
    ∃ n, Steps anyScope n w (sysMmap h s addr len prot flags file w).1 ∧
      (¬ mapsProtNone w s addr len prot flags → n = 0) := by
  unfold sysMmap
  by_cases hlen : len = 0
  · rw [if_pos hlen]
    exact ⟨0, .refl w, fun _ => rfl⟩
  rw [if_neg hlen]
  cases hprot : Prot.ofWord prot with
  | none => exact ⟨0, .refl w, fun _ => rfl⟩
  | some p =>
    simp only
    by_cases hboth : (flags.isPrivate && flags.shared) = true
    · rw [if_pos hboth]
      exact ⟨0, .refl w, fun _ => rfl⟩
    rw [if_neg hboth]
    by_cases hpages : 0 < pageRoundUp len
    swap
    · rw [dif_neg hpages]
      exact ⟨0, .refl w, fun _ => rfl⟩
    rw [dif_pos hpages]
    have hplace := mmapPlace_pt w s addr hpages flags.fixed
      (isV8CageReservation (pageRoundUp len) p flags)
    cases hres : mmapPlace w s addr (pageRoundUp len) hpages flags.fixed
      (isV8CageReservation (pageRoundUp len) p flags) with
    | mk res m =>
      rw [hres] at hplace
      have hset : Steps anyScope 0 w (w.setMem s m) :=
        steps_setMem (congrArg PageTable.entry hplace.1)
      cases res with
      | error e => exact ⟨0, hset, fun _ => rfl⟩
      | ok r =>
        obtain ⟨n, hs, hn⟩ := steps_mmapAt (h := h) (s := s) r p flags file
          (hset.balanced hb)
        refine ⟨n, hset.trans₀ hs, fun hcond => hn fun ⟨hanon, hnone, hsmall⟩ => hcond ?_⟩
        have hlt : pageRoundUp len < 0x8000 := hplace.2 r rfl ▸ hsmall
        have hcage : isV8CageReservation (pageRoundUp len) p flags = false := by
          simp [isV8CageReservation, Nat.not_le.mpr hlt]
        exact ⟨(isProtNone_ofWord hprot).mp hnone, hanon, hlt, hpages, r, m, hcage ▸ hres⟩

lemma steps_sysMunmap {len : ℕ} : Steps anyScope 0 w (sysMunmap h s addr len w).1 := by
  unfold sysMunmap
  split_ifs
  · exact .refl w
  · exact steps_ptUnmapAlways fun _ _ _ => mayReplace_any w _

lemma steps_sysMprotect {len prot : ℕ} (hb : w.Balanced) :
    ∃ n, Steps anyScope n w (sysMprotect h s addr len prot w).1 ∧
      (¬ commitsReserved w s addr len prot → n = 0) := by
  unfold sysMprotect
  by_cases haddr : pgoffset addr ≠ 0
  · rw [if_pos haddr]
    exact ⟨0, .refl w, fun _ => rfl⟩
  rw [if_neg haddr]
  cases hprot : Prot.ofWord prot with
  | none => exact ⟨0, .refl w, fun _ => rfl⟩
  | some p =>
    simp only
    by_cases hall : allPages (fun q => isMapped w s q ||
        (memFindReservation (w.mem s).reservations q).isSome) (page addr) (pageRoundUp len) = true
    swap
    · refine ⟨0, ?_, fun _ => rfl⟩
      rw [ptSetFlags, if_neg hall]
      exact .refl w
    obtain ⟨n, hs, hn⟩ := steps_ptSetFlags (S := anyScope) p h s (page addr)
      (pageRoundUp len) hb
    refine ⟨n, hs, fun hcond => hn ?_⟩
    by_cases hnone : p.flags.isProtNone = true
    · exact Or.inl hnone
    refine Or.inr fun q hle hlt => ?_
    by_contra hq
    have hword : prot < 8 := by
      by_contra hge
      simp [Prot.ofWord, hge] at hprot
    refine hcond ⟨not_not.mp haddr, fun hz => hnone ((isProtNone_ofWord hprot).mpr hz), hword,
      hall, ?_⟩
    exact Bool.eq_false_iff.mpr fun htrue => hq (allPages_iff.mp htrue q hle hlt)

lemma steps_sysMremap {oldLen newLen : BitVec 32} (hb : w.Balanced) :
    ∃ n, Steps anyScope n w (sysMremap h s addr oldLen newLen w).1 ∧
      (¬ growsMapping w s addr oldLen newLen → n = 0) := by
  unfold sysMremap
  by_cases haddr : pgoffset addr ≠ 0
  · rw [if_pos haddr]
    exact ⟨0, .refl w, fun _ => rfl⟩
  rw [if_neg haddr]
  simp only
  by_cases hshrink : page newLen.toNat ≤ page oldLen.toNat
  · rw [if_pos hshrink]
    have hunmap : Steps anyScope 0 w (ptUnmap h s (page addr + page newLen.toNat)
        (page oldLen.toNat - page newLen.toNat) w).1 := by
      unfold ptUnmap
      split_ifs
      · exact steps_ptUnmapAlways fun _ _ _ => mayReplace_any w _
      · exact .refl w
    generalize ptUnmap h s (page addr + page newLen.toNat)
      (page oldLen.toNat - page newLen.toNat) w = res at hunmap
    obtain ⟨w', _ | _⟩ := res <;> exact ⟨0, hunmap, fun _ => rfl⟩
  rw [if_neg hshrink]
  cases he : (w.mem s).pt.memPt (page addr) with
  | none => exact ⟨0, .refl w, fun _ => rfl⟩
  | some e =>
    simp only
    split_ifs with hall hanon hhole
    · exact ⟨0, .refl w, fun _ => rfl⟩
    · exact ⟨0, .refl w, fun _ => rfl⟩
    · exact ⟨0, .refl w, fun _ => rfl⟩
    · have hmap := steps_mapNothing_any (h := h) (s := s) (page addr + page oldLen.toNat)
        (page newLen.toNat - page oldLen.toNat) e.flags hb
      have hgrows : growsMapping w s addr oldLen newLen :=
        ⟨not_not.mp haddr, Nat.lt_of_not_le hshrink, ⟨e, he, by simpa using hanon⟩,
          by simpa using hall, by simpa using hhole⟩
      generalize ptMapNothing h s (page addr + page oldLen.toNat)
        (page newLen.toNat - page oldLen.toNat) e.flags w = res at hmap
      obtain ⟨w', _ | _⟩ := res <;> exact ⟨_, hmap, fun hcond => absurd hgrows hcond⟩

lemma steps_growBrk {g : Guest} {start size newBrk : ℕ} (hb : g.world.Balanced) :
    Steps anyScope 0 g.world (growBrk h s start size newBrk g).world := by
  unfold growBrk
  split_ifs with hhole hlimit
  · exact .refl _
  · exact .refl _
  · have hmap := steps_countedMap (h := h) (s := s) start size pWrite hb
    generalize ptMapNothing h s start size pWrite _ = res at hmap
    obtain ⟨w', _ | _⟩ := res <;> exact hmap

lemma steps_shrinkBrk {g : Guest} {firstUnmap lastUnmap newBrk : ℕ} :
    Steps anyScope 0 g.world (shrinkBrk h s firstUnmap lastUnmap newBrk g).world := by
  by_cases hlt : firstUnmap < lastUnmap
  · simp only [shrinkBrk, if_pos hlt]
    exact steps_ptUnmapAlways fun _ _ _ => mayReplace_any _ _
  · simp only [shrinkBrk, if_neg hlt]
    exact .refl _

lemma steps_sysBrk {g : Guest} {newBrk : ℕ} (hb : g.world.Balanced) :
    Steps anyScope 0 g.world (sysBrk h s newBrk g).world := by
  by_cases hlow : newBrk < g.startBrk s
  · rw [sysBrk, if_pos hlow]
    exact .refl _
  by_cases hgrow : g.brk s < newBrk
  · rw [sysBrk, if_neg hlow, if_pos hgrow]
    exact steps_growBrk hb
  by_cases hshrink : newBrk < g.brk s
  · rw [sysBrk, if_neg hlow, if_neg hgrow, if_pos hshrink]
    exact steps_shrinkBrk
  · rw [sysBrk, if_neg hlow, if_neg hgrow, if_neg hshrink]
    exact .refl _

lemma entry_of_tables_nil {pt : PageTable} (h : pt.tables = []) : pt.entry = PageTable.empty.entry := by
  funext i
  refine Option.eq_none_iff_forall_ne_some.mpr fun e he => ?_
  have hmem := (pt.mapped i e he).2
  simp [h] at hmem

lemma steps_mmCopy {g : Guest} {src dst : ℕ} (hv : g.world.Valid) :
    Steps anyScope 0 g.world (mmCopy h src dst g).world := by
  unfold mmCopy
  split_ifs with hfresh
  · obtain ⟨hne, htables⟩ := hfresh
    have hset : Steps anyScope 0 g.world (g.world.setMem dst .init) :=
      steps_setMem (entry_of_tables_nil htables).symm
    have hspec := ptCopyOnWrite_spec (S := anyScope) (h := h) 0 memPages hne
      (fun i => Set.mem_univ _) (Set.mem_univ _) (hset.balanced hv.balanced)
      (hset.lawful hv.lawful) (fun hS => absurd trivial hS) (Nat.zero_add _).le
    exact hset.trans₀ hspec.1
  · exact .refl _

lemma steps_gpfMap (isWrite : Bool) (pc : ℕ) (hb : w.Balanced) :
    ∃ n, Steps anyScope n w (gpfMap h s addr isWrite pc w) ∧
      (accessServed h w s addr (if isWrite then .write else .read) →
        (∀ w₁, memPtr h s addr (if isWrite then .write else .read) w = (w₁, none) →
          demandMaps w₁ s addr isWrite pc = false ∨ isMapped w₁ s (page addr) = true) → n = 0) := by
  obtain ⟨n, hs, hn⟩ := steps_memPtr (S := anyScope) (h := h) (s := s) addr
    (if isWrite then .write else .read) hb (fun _ => ⟨Set.mem_univ _, trivial⟩)
  unfold gpfMap
  generalize memPtr h s addr (if isWrite then .write else .read) w = res at hs
  obtain ⟨w₁, _ | p⟩ := res
  · simp only
    by_cases hmaps : (demandMaps w₁ s addr isWrite pc && !isMapped w₁ s (page addr)) = true
    · rw [if_pos hmaps]
      refine ⟨_, hs.trans (steps_mapNothing_any _ _ _ (hs.balanced hb)), fun _ hcond => ?_⟩
      rcases hcond w₁ rfl with hno | hno <;> simp [hno] at hmaps
    · rw [if_neg hmaps]
      exact ⟨n, hs, fun hserved _ => hn hserved⟩
  · exact ⟨n, hs, fun hserved _ => hn hserved⟩

/-! ### Runs -/

namespace Syscall

/-- Every system call is a sequence of elementary steps, without drift if it is counted. -/
theorem exists_steps {g : Guest} (op : Syscall) (h : Host) (hv : g.world.Valid) :
    ∃ n, Steps anyScope n g.world (step g (h, op)).world ∧ (op.Counted h g → n = 0) := by
  cases op with
  | mmap s addr len prot flags file => exact steps_sysMmap hv.balanced
  | munmap s addr len => exact ⟨0, steps_sysMunmap, fun _ => rfl⟩
  | mprotect s addr len prot => exact steps_sysMprotect hv.balanced
  | mremap s addr oldLen newLen => exact steps_sysMremap hv.balanced
  | brk s newBrk => exact ⟨0, steps_sysBrk hv.balanced, fun _ => rfl⟩
  | fork src dst => exact ⟨0, steps_mmCopy hv, fun _ => rfl⟩
  | access s addr type =>
    exact steps_memPtr addr type hv.balanced fun _ => ⟨Set.mem_univ _, trivial⟩
  | gpf s addr isWrite pc =>
    obtain ⟨n, hs, hn⟩ := steps_gpfMap (h := h) (s := s) isWrite pc
      hv.balanced
    exact ⟨n, hs, fun hc => hn hc.1 hc.2⟩
  | destroy s => exact ⟨0, steps_memDestroy fun i => Set.mem_univ _, fun _ => rfl⟩

theorem valid_step {g : Guest} (call : Host × Syscall) (hv : g.world.Valid) :
    (step g call).world.Valid := by
  obtain ⟨n, hs, -⟩ := exists_steps call.2 call.1 hv
  exact hs.valid hv

theorem valid_run {g : Guest} (calls : List (Host × Syscall)) (hv : g.world.Valid) :
    (run step g calls).world.Valid := by
  induction calls generalizing g with
  | nil => exact hv
  | cons call calls ih => exact ih (valid_step call hv)

/-- A counted call keeps the difference between the count and the entries. -/
theorem anonDrift_step {g : Guest} {call : Host × Syscall} (hv : g.world.Valid)
    (hcall : call.2.Counted call.1 g) : (step g call).world.anonDrift = g.world.anonDrift := by
  obtain ⟨n, hs, hn⟩ := exists_steps call.2 call.1 hv
  have hdrift := hs.anonDrift hv.balanced
  rwa [hn hcall, add_zero] at hdrift

theorem anonDrift_run {g : Guest} {calls : List (Host × Syscall)} (hv : g.world.Valid)
    (hcalls : RunAll step (fun g call => call.2.Counted call.1 g) g calls) :
    (run step g calls).world.anonDrift = g.world.anonDrift := by
  induction calls generalizing g with
  | nil => rfl
  | cons call calls ih =>
    obtain ⟨hcall, hcalls⟩ := hcalls
    exact (ih (valid_step call hv) hcalls).trans (anonDrift_step hv hcall)

lemma slot_destroyAll (h : Host) (spaces : List ℕ) {g : Guest} {k : ℕ × ℕ}
    (hk : (g.world.slot k).isSome → k.1 ∈ spaces) :
    (run step g (spaces.map fun s => (h, destroy s))).world.slot k = none := by
  induction spaces generalizing g with
  | nil => simpa using hk
  | cons s spaces ih =>
    refine ih fun hsome => ?_
    rcases eq_or_ne k.1 s with rfl | hne
    · exact absurd hsome (by simp [step, memDestroy, slot])
    · have hmem : (memDestroy h s g.world).mem k.1 = g.world.mem k.1 := by
        simp [memDestroy, setMem, hne, ptUnmapAlways_mem hne]
      refine (List.mem_cons.mp (hk ?_)).resolve_left hne
      exact (congrArg (fun m => (m.pt.entry k.2).isSome) hmem).symm.trans hsome

lemma counted_destroyAll (h : Host) (spaces : List ℕ) (g : Guest) :
    RunAll step (fun g call => call.2.Counted call.1 g) g
      (spaces.map fun s => (h, destroy s)) := by
  induction spaces generalizing g with
  | nil => trivial
  | cons s spaces ih => exact ⟨trivial, ih _⟩

end Syscall

/-- In a run of counted calls the count is the number of anonymous entries, so it is not
negative, and it is back at zero when the address spaces that have entries are destroyed. -/
theorem anonPageCount_eq_entries (startBrk brk : ℕ → ℕ) (calls : List (Host × Syscall))
    (hcalls : RunAll Syscall.step (fun g call => call.2.Counted call.1 g)
      ⟨World.init, startBrk, brk⟩ calls) :
    let g := run Syscall.step ⟨World.init, startBrk, brk⟩ calls
    g.world.anonPageCount = g.world.anonEntries ∧ 0 ≤ g.world.anonPageCount ∧
      ∀ h (spaces : List ℕ), (∀ k, (g.world.slot k).isSome → k.1 ∈ spaces) →
        (run Syscall.step g (spaces.map fun s => (h, .destroy s))).world.anonPageCount = 0 := by
  intro g
  have hv : g.world.Valid := Syscall.valid_run calls valid_init
  have hinit : World.init.anonDrift = 0 :=
    sub_eq_zero.mpr (congrArg Nat.cast (slotCount_empty _)).symm
  have hdrift : g.world.anonDrift = 0 := (Syscall.anonDrift_run valid_init hcalls).trans hinit
  have heq : g.world.anonPageCount = g.world.anonEntries := sub_eq_zero.mp hdrift
  refine ⟨heq, heq ▸ Int.natCast_nonneg _, fun h spaces hspaces => ?_⟩
  have hdestroy := Syscall.anonDrift_run hv (Syscall.counted_destroyAll h spaces g)
  have hv' := Syscall.valid_run (spaces.map fun s => (h, Syscall.destroy s)) hv
  have hzero : (run Syscall.step g (spaces.map fun s => (h, .destroy s))).world.anonEntries = 0 :=
    (slotCount_eq_zero hv'.balanced.finite).mpr fun k e he => by
      simp [Syscall.slot_destroyAll h spaces (hspaces k)] at he
  rw [hdrift, World.anonDrift, hzero] at hdestroy
  simpa using hdestroy

/-- Two pages are mapped and inherited by a child, the child copies one by a store to it, and
the parent unmaps one. -/
theorem anonPageCount_eq_entries_fork :
    let calls : List (Host × Syscall) := [({}, .mmap 0 0x5000 0x2000 3
        { isPrivate := true, anonymous := true, fixed := true } .badFd),
      ({}, .fork 0 1), ({}, .access 1 0x5000 .write), ({}, .munmap 0 0x5000 0x1000)]
    let g := run Syscall.step ⟨World.init, 0, 0⟩ calls
    g.world.anonPageCount = 3 ∧ g.world.anonEntries = 3 := by
  intro calls g
  have hcount : g.world.anonPageCount = 3 := by decide +kernel
  have hcalls : RunAll Syscall.step (fun g call => call.2.Counted call.1 g)
      ⟨World.init, 0, 0⟩ calls :=
    ⟨fun hnone => absurd hnone.1 (by decide), trivial, Or.inr ⟨rfl, rfl⟩, trivial, trivial⟩
  have hrun := (anonPageCount_eq_entries 0 0 calls hcalls).1
  exact ⟨hcount, Int.ofNat_inj.mp (hrun.symm.trans hcount)⟩

/-- A page that `mremap` adds is not counted, and taken off the count when it is unmapped. -/
theorem anonPageCount_ne_entries :
    ¬ ∀ calls : List (Host × Syscall),
      (run Syscall.step ⟨World.init, 0, 0⟩ calls).world.anonPageCount =
        (run Syscall.step ⟨World.init, 0, 0⟩ calls).world.anonEntries := by
  intro hall
  have heq := hall [({}, .mmap 0 0x5000 0x1000 3
      { isPrivate := true, anonymous := true, fixed := true } .badFd),
    ({}, .mremap 0 0x5000 0x1000 0x2000), ({}, .munmap 0 0x5000 0x2000)]
  have hneg : (-1 : ℤ) = ↑(World.anonEntries _) := heq
  omega

end ShellBox
