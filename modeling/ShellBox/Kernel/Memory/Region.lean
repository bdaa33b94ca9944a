import ShellBox.Kernel.Memory.Isolation

/-!
# Regions of an address space

An operation on a range of pages leaves everything outside the range alone: the entries of
other pages, the host memory behind them, and what is reserved there. Inside the range, a
page that has an entry is translated without looking at any reservation.
-/

namespace ShellBox

open Function World

variable {S : Scope} {n : ℤ} {w w' w'' : World} {h : Host} {s s' start pages page q : ℕ}

/-- The slots of the pages from `lo` on and below `hi`. -/
def pageSlots (s lo hi : ℕ) : Set (ℕ × ℕ) :=
  {k | k.1 = s ∧ ∃ q, lo ≤ q ∧ q < hi ∧ k.2 = ptIndex q}

lemma mem_pageSlots {lo hi : ℕ} (hle : lo ≤ q) (hlt : q < hi) :
    (s, ptIndex q) ∈ pageSlots s lo hi := ⟨rfl, q, hle, hlt, rfl⟩

lemma pageSlots_mono {lo lo' hi hi' : ℕ} (hlo : lo' ≤ lo) (hhi : hi ≤ hi') :
    pageSlots s lo hi ⊆ pageSlots s lo' hi' := by
  rintro k ⟨hs, q, hle, hlt, hk⟩
  exact ⟨hs, q, hlo.trans hle, hlt.trans_le hhi, hk⟩

/-! ### Reservations outside a range -/

def World.reservedFlags (w : World) (s page : ℕ) : Option Flags :=
  (memFindReservation (w.mem s).reservations page).map (·.flags)

lemma memFindReservation_append (rs rs' : List MemReservation) (q : ℕ) :
    memFindReservation (rs ++ rs') q =
      (memFindReservation rs q).or (memFindReservation rs' q) := List.find?_append

private lemma memFindReservation_pieces {r : MemReservation} {rs rs' : List MemReservation}
    (pieces : List MemReservation)
    (hflags : ∀ p ∈ pieces, p.flags = r.flags)
    (hcov : r.covers q = true ↔ ∃ p ∈ pieces, p.covers q = true)
    (hrest : (memFindReservation rs' q).map (·.flags) = (memFindReservation rs q).map (·.flags)) :
    (memFindReservation (pieces ++ rs') q).map (·.flags) =
      (memFindReservation (r :: rs) q).map (·.flags) := by
  rw [memFindReservation_append]
  by_cases hr : r.covers q = true
  · obtain ⟨p, hp, hpq⟩ := hcov.mp hr
    have hsome : (memFindReservation pieces q).isSome := List.find?_isSome.mpr ⟨p, hp, hpq⟩
    obtain ⟨p', hp'⟩ := Option.isSome_iff_exists.mp hsome
    have hmem : p' ∈ pieces := List.mem_of_find?_eq_some hp'
    simp [memFindReservation, hr, show pieces.find? _ = some p' from hp', hflags p' hmem]
  · have hnone : memFindReservation pieces q = none := by
      apply List.find?_eq_none.mpr
      intro p hp hpq
      exact hr (hcov.mpr ⟨p, hp, hpq⟩)
    rw [hnone, Option.none_or, hrest]
    simp [memFindReservation, hr]

lemma MemReservation.covers_iff (r : MemReservation) (q : ℕ) :
    r.covers q = true ↔ r.start ≤ q ∧ q < r.start + r.pages := by
  simp [covers]

lemma memRemoveReservations_flags {tailOk : MemReservation → Bool} (rs : List MemReservation)
    (hq : ¬ (start ≤ q ∧ q < start + pages)) :
    (memFindReservation (memRemoveReservations tailOk start pages rs) q).map (·.flags) =
      (memFindReservation rs q).map (·.flags) := by
  induction rs with
  | nil => rfl
  | cons r rs ih =>
    have hkeep : (memFindReservation ([r] ++ memRemoveReservations tailOk start pages rs) q).map
        (·.flags) = (memFindReservation (r :: rs) q).map (·.flags) :=
      memFindReservation_pieces [r] (by simp) (by simp) ih
    unfold memRemoveReservations
    split_ifs with h₀ h₁ h₂ htail h₃
    · exact hkeep
    · -- the whole record goes: it did not cover the page
      refine memFindReservation_pieces [] (by simp) ?_ ih
      simp only [MemReservation.covers_iff, List.not_mem_nil, false_and, exists_false, iff_false]
      omega
    · refine memFindReservation_pieces [r.below start (by omega),
        r.above (start + pages) (by omega)] ?_ ?_ ih
      · simp [MemReservation.below, MemReservation.above]
      · simp only [MemReservation.covers_iff, List.mem_cons, List.not_mem_nil, or_false,
          exists_eq_or_imp, exists_eq_left, MemReservation.below, MemReservation.above]
        omega
    · exact hkeep
    · refine memFindReservation_pieces [r.below start (by omega)] ?_ ?_ ih
      · simp [MemReservation.below]
      · simp only [MemReservation.covers_iff, List.mem_singleton, exists_eq_left,
          MemReservation.below]
        omega
    · refine memFindReservation_pieces [r.above (start + pages) (by omega)] ?_ ?_ ih
      · simp [MemReservation.above]
      · simp only [MemReservation.covers_iff, List.mem_singleton, exists_eq_left,
          MemReservation.above]
        omega

lemma reservedFlags_of_ge (w : World) (s : ℕ) (hq : memPages ≤ q) : w.reservedFlags s q = none := by
  rw [reservedFlags, Option.map_eq_none_iff, Option.eq_none_iff_forall_ne_some]
  intro r hr
  exact absurd (fits_of_memFindReservation hr) (Nat.not_lt.mpr hq)

lemma reservedFlags_congr (hmem : w'.mem s = w.mem s) :
    w'.reservedFlags s q = w.reservedFlags s q := by
  rw [reservedFlags, hmem, reservedFlags]

lemma reservations_unmapPage (s s' page : ℕ) (w : World) :
    ((unmapPage s page w).mem s').reservations = (w.mem s').reservations := by
  by_cases hs : s' = s
  · subst hs
    cases he : w.slot (s', ptIndex page) with
    | none => rw [unmapPage_none he]
    | some e =>
      rw [unmapPage_some he, unrefData_mem, memPtDel, setMem_self]
      split_ifs <;> rfl
  · rw [unmapPage_mem hs]

lemma reservations_memChanged (w : World) (s s' : ℕ) :
    ((w.memChanged s).mem s').reservations = (w.mem s').reservations := by
  by_cases hs : s' = s
  · subst hs
    simp [memChanged]
  · rw [memChanged_mem hs]

lemma reservations_ptUnmapAlways (h : Host) (s start pages : ℕ) (w : World) :
    ((ptUnmapAlways h s start pages w).mem s).reservations =
      memRemoveReservations h.reservationOk start pages (w.mem s).reservations := by
  unfold ptUnmapAlways
  rw [reservations_memChanged]
  exact forLoop_invariant (P := fun v : World => (v.mem s).reservations =
      memRemoveReservations h.reservationOk start pages (w.mem s).reservations)
    (fun i v _ ih => (reservations_unmapPage s s i v).trans ih) _ _ (by simp)

lemma reservedFlags_ptUnmapAlways (h : Host) (w : World)
    (hq : s' = s → ¬ (start ≤ q ∧ q < start + pages)) :
    (ptUnmapAlways h s start pages w).reservedFlags s' q = w.reservedFlags s' q := by
  by_cases hs : s' = s
  · subst hs
    unfold reservedFlags
    rw [reservations_ptUnmapAlways]
    exact memRemoveReservations_flags _ (hq rfl)
  · exact reservedFlags_congr (ptUnmapAlways_mem hs h start pages w)

lemma reservedFlags_mapPage {d : DataId} {offset : ℕ} {flags : Flags} (h : Host) (w : World)
    (hq : s' = s → q ≠ page) :
    (mapPage h s d start offset flags page w).reservedFlags s' q = w.reservedFlags s' q := by
  simp only [mapPage, unmap_before]
  have hunmap : (if isMapped w s page then ptUnmapAlways h s page 1 w else w).reservedFlags s' q =
      w.reservedFlags s' q := by
    split_ifs
    · apply reservedFlags_ptUnmapAlways
      intro hs hrange
      exact hq hs (by omega)
    · rfl
  rw [← hunmap]
  generalize (if isMapped w s page then ptUnmapAlways h s page 1 w else w) = v
  by_cases hs : s' = s
  · subst hs
    simp [reservedFlags, World.memPtNew]
  · exact reservedFlags_congr (by simp [World.memPtNew, hs])

/-! ### Everything outside a range -/

/-- Outside a set of slots, the entries, the memory behind them and the reservations are
what they were. -/
structure World.SameOutside (K : Set (ℕ × ℕ)) (w w' : World) : Prop where
  slot : ∀ k, k ∉ K → w'.slot k = w.slot k
  load : ∀ k e o, k ∉ K → w.slot k = some e →
    w'.load { data := e.data, offset := o } = w.load { data := e.data, offset := o }
  reserved : ∀ s q, (s, q) ∉ K → w'.reservedFlags s q = w.reservedFlags s q

namespace World.SameOutside

variable {K : Set (ℕ × ℕ)}

lemma refl (w : World) : w.SameOutside K w :=
  ⟨fun _ _ => rfl, fun _ _ _ _ _ => rfl, fun _ _ _ => rfl⟩

lemma mono {K' : Set (ℕ × ℕ)} (h : w.SameOutside K w') (hK : K ⊆ K') : w.SameOutside K' w' where
  slot k hk := h.slot k fun hmem => hk (hK hmem)
  load k e o hk he := h.load k e o (fun hmem => hk (hK hmem)) he
  reserved s q hk := h.reserved s q fun hmem => hk (hK hmem)

lemma trans (h : w.SameOutside K w') (h' : w'.SameOutside K w'') : w.SameOutside K w'' where
  slot k hk := (h'.slot k hk).trans (h.slot k hk)
  load k e o hk he := (h'.load k e o hk ((h.slot k hk).trans he)).trans (h.load k e o hk he)
  reserved s q hk := (h'.reserved s q hk).trans (h.reserved s q hk)

lemma of_steps (hs : Steps S n w w') (hb : w.Balanced) (hslot : ∀ k, k ∉ K → w'.slot k = w.slot k)
    (hres : ∀ s q, (s, q) ∉ K → w'.reservedFlags s q = w.reservedFlags s q) :
    w.SameOutside K w' where
  slot := hslot
  load k _ o hk he := load_of_steps hs hb he ((hslot k hk).trans he) o
  reserved := hres

lemma of_data (hslot : ∀ k, k ∉ K → w'.slot k = w.slot k) (hdata : w'.data = w.data)
    (hres : ∀ s q, (s, q) ∉ K → w'.reservedFlags s q = w.reservedFlags s q) :
    w.SameOutside K w' where
  slot := hslot
  load _ _ _ _ _ := by rw [World.load, hdata, World.load]
  reserved := hres

lemma memChanged (w : World) (s : ℕ) : w.SameOutside K (w.memChanged s) := by
  apply of_data
  · exact fun k _ => by rw [memChanged_slot]
  · rfl
  · intro s' q _
    rw [reservedFlags, reservations_memChanged, reservedFlags]

lemma setFlags (w : World) (s page : ℕ) (f : Flags) :
    w.SameOutside (pageSlots s page (page + 1)) (w.setFlags s page f) := by
  apply of_data
  · intro k hk
    rw [setFlags_slot, update_of_ne]
    rintro rfl
    exact hk (mem_pageSlots le_rfl (Nat.lt_succ_self page))
  · rfl
  · intro s' q _
    by_cases hs : s' = s
    · subst hs
      simp [reservedFlags, World.setFlags]
    · exact reservedFlags_congr (setMem_of_ne _ _ _ hs)

end World.SameOutside

lemma reservedFlags_ptMap {memory : Option (ℕ → UInt8)} {offset : ℕ} {flags : Flags} (h : Host)
    (w : World) (hq : s' = s → ¬ (start ≤ q ∧ q < start + pages)) :
    (ptMap h s start pages memory offset flags w).1.reservedFlags s' q = w.reservedFlags s' q := by
  unfold ptMap
  cases memory with
  | none => rfl
  | some bytes =>
    simp only
    split_ifs
    · obtain ⟨j, -, -, hloop⟩ := forLoop_exit (fun _ page => page + 1)
        (mapPage h s w.nextData start offset flags) (start + pages)
        (P := fun i v => start ≤ i ∧ v.reservedFlags s' q = w.reservedFlags s' q)
        (fun _ i => Nat.lt_succ_self i)
        (fun i v hi ⟨hle, ih⟩ => by
          refine ⟨Nat.le_succ_of_le hle, (reservedFlags_mapPage h v ?_).trans ih⟩
          rintro hs rfl
          exact hq hs ⟨hle, hi⟩)
        pages start (s := w.allocData bytes) le_rfl ⟨le_rfl, rfl⟩
      exact hloop
    · rfl

lemma ptMapNothing_range (h : Host) (s start pages : ℕ) (flags : Flags) (hb : w.Balanced)
    (hmark : flags.IsMapFlags) :
    w.SameOutside (pageSlots s start (start + pages)) (ptMapNothing h s start pages flags w).1 ∧
      ((ptMapNothing h s start pages flags w).2 = .ok () →
        ∀ q, start ≤ q → q < start + pages → ∃ o,
          (ptMapNothing h s start pages flags w).1.slot (s, ptIndex q) =
              some { data := w.nextData, offset := o, flags := flags ||| pAnonymous } ∧
            ∀ i, (ptMapNothing h s start pages flags w).1.load
              { data := w.nextData, offset := i } = some 0) := by
  unfold ptMapNothing
  split_ifs with hzero hok
  · exact ⟨.refl w, fun _ q hle hlt => absurd hlt (by omega)⟩
  · have hmark' : (flags ||| pAnonymous).IsMapFlags := by
      simpa [Flags.IsMapFlags, pAnonymous] using hmark
    have hres : ∀ s' q, (s', q) ∉ pageSlots s start (start + pages) →
        (ptMap h s start pages (some fun _ => 0) 0 (flags ||| pAnonymous) w).1.reservedFlags s' q =
          w.reservedFlags s' q := by
      intro s' q hq
      rcases lt_or_ge q memPages with hmem | hmem
      · apply reservedFlags_ptMap h w
        rintro rfl ⟨hle, hlt⟩
        have hin := mem_pageSlots (s := s') hle hlt
        rw [ptIndex_of_lt hmem] at hin
        exact hq hin
      · rw [reservedFlags_of_ge _ _ hmem, reservedFlags_of_ge _ _ hmem]
    by_cases hdata : h.dataOk start = true
    · obtain ⟨w', heq, hloop⟩ := ptMap_ok (S := ⟨Set.univ, ∅, False⟩) (s := s) (fun _ => 0) 0
        (flags ||| pAnonymous) hb hok.2 hdata (fun q _ _ e _ => Or.inl (Set.mem_univ _))
        (Or.inl hmark')
      rw [heq] at hres ⊢
      constructor
      · apply SameOutside.of_steps hloop.steps hb _ hres
        intro k hk
        apply hloop.outside
        rintro q hle hlt rfl
        exact hk (mem_pageSlots hle hlt)
      · intro _ q hle hlt
        obtain ⟨x, hx, hbytes⟩ := hloop.data
        exact ⟨_, hloop.inside q hle hlt, fun i => by simp [load, hx, hbytes]⟩
    · simp only [ptMap, hdata]
      exact ⟨.refl w, fun hfalse => by simp at hfalse⟩
  · exact ⟨.refl w, fun hfalse => by simp at hfalse⟩

lemma ptMapNothing_of_grants {flags : Flags} (hg : h.Grants start) (hpages : pages ≤ memPages) :
    (ptMapNothing h s start pages flags w).2 = .ok () := by
  unfold ptMapNothing
  split_ifs with hzero hok
  · rfl
  · simp [ptMap, hg.2]
  · exact absurd ⟨hg.1, hpages⟩ hok

/-! ### The page a stack would grow down from -/

def World.StackAbove (w : World) (s page : ℕ) : Prop :=
  ∃ p e, page < p ∧ w.slot (s, p) = some e ∧ e.flags.growsdown = true ∧
    ∀ q, page ≤ q → q < p → w.slot (s, q) = none

lemma growsdown_iff_stackAbove (hempty : w.slot (s, page) = none) (hlt : page < memPages) :
    (∃ p, (w.mem s).pt.nextMapped memPages ((w.mem s).pt.memNextPage page) = some p ∧
      (((w.mem s).pt.memPt p).map (·.flags.growsdown)).getD false = true) ↔
    w.StackAbove s page := by
  have hempty' : w.slot (s, ptIndex page) = none := by rwa [ptIndex_of_lt hlt]
  constructor
  · rintro ⟨p, hnext, hgrows⟩
    obtain ⟨hpage, hmem, hgap⟩ := PageTable.nextMapped_gap _ hempty' hnext
    obtain ⟨e, he⟩ := Option.isSome_iff_exists.mp (PageTable.nextMapped_isSome _ hnext)
    refine ⟨p, e, hpage, ?_, ?_, hgap⟩
    · rwa [memPt_eq_slot, ptIndex_of_lt hmem] at he
    · simpa [he] using hgrows
  · rintro ⟨p, e, hpage, he, hgrows, hgap⟩
    obtain ⟨hmem, -⟩ := (w.mem s).pt.mapped p e he
    cases hnext : (w.mem s).pt.nextMapped memPages ((w.mem s).pt.memNextPage page) with
    | none =>
      have hskip := (w.mem s).pt.nextMapped_none (by omega) hnext
      rcases Nat.lt_or_ge p ((w.mem s).pt.memNextPage page) with hp | hp
      · exact absurd (he.symm.trans (PageTable.memNextPage_skips _ hpage hp hmem)) (by simp)
      · exact absurd (he.symm.trans (hskip p hp hmem)) (by simp)
    | some p' =>
      -- both are the first mapped page above
      obtain ⟨hpage', hmem', hgap'⟩ := PageTable.nextMapped_gap _ hempty' hnext
      obtain ⟨e', he'⟩ := Option.isSome_iff_exists.mp (PageTable.nextMapped_isSome _ hnext)
      rw [memPt_eq_slot, ptIndex_of_lt hmem'] at he'
      obtain rfl : p = p' := by
        rcases lt_trichotomy p p' with hpp | rfl | hpp
        · exact absurd (he.symm.trans (hgap' p hpage.le hpp)) (by simp)
        · rfl
        · exact absurd (he'.symm.trans (hgap p' hpage'.le hpp)) (by simp)
      refine ⟨p, rfl, ?_⟩
      rw [memPt_eq_slot, ptIndex_of_lt hmem, he]
      exact hgrows

lemma World.StackAbove.congr (hslot : w'.slot = w.slot) :
    w'.StackAbove s page ↔ w.StackAbove s page := by
  simp only [World.StackAbove, hslot]

lemma faultIn_of_no_stack (h : Host) (hempty : w.slot (s, page) = none) (hlt : page < memPages)
    (hstack : ¬ w.StackAbove s page) : faultIn h s page w = mapReserved h s page w := by
  have hpt : (w.mem s).pt.memPt page = none := by rwa [memPt_eq_slot, ptIndex_of_lt hlt]
  unfold faultIn
  simp only [hpt]
  cases hnext : (w.mem s).pt.nextMapped memPages ((w.mem s).pt.memNextPage page) with
  | none => rfl
  | some p =>
    have hno : ¬ (((w.mem s).pt.memPt p).map (·.flags.growsdown)).getD false = true :=
      fun hgrows => hstack ((growsdown_iff_stackAbove hempty hlt).mp ⟨p, hnext, hgrows⟩)
    simp only
    rw [if_neg hno]

lemma faultIn_of_stack (hempty : w.slot (s, page) = none) (hlt : page < memPages)
    (hstack : w.StackAbove s page) (hlimit : withinStackLimit h page = false) :
    faultIn h s page w = (w, false) := by
  have hpt : (w.mem s).pt.memPt page = none := by rwa [memPt_eq_slot, ptIndex_of_lt hlt]
  obtain ⟨p, hnext, hgrows⟩ := (growsdown_iff_stackAbove hempty hlt).mpr hstack
  unfold faultIn
  simp only [hpt, hnext, hgrows, hlimit, if_true, Bool.false_eq_true, if_false]

/-! ### Translation of a mapped page -/

variable {e : PtEntry} {addr : ℕ}

lemma memPtr_read_mapped (h : Host) (he : w.slot (s, ptIndex (ShellBox.page addr)) = some e) :
    memPtr h s addr .read w = (w, some { data := e.data, offset := e.offset + pgoffset addr }) := by
  have hpt : (w.mem s).pt.memPt (ShellBox.page addr) = some e := he
  simp [memPtr, faultIn, memPtrNofault, hpt]

lemma memPtr_write_refused (h : Host) (he : w.slot (s, ptIndex (ShellBox.page addr)) = some e)
    (hwrite : e.flags.write = false) : memPtr h s addr .write w = (w, none) := by
  have hpt : (w.mem s).pt.memPt (ShellBox.page addr) = some e := he
  simp [memPtr, faultIn, prepareWrite, hpt, hwrite]

end ShellBox
