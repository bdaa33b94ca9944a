import ShellBox.Kernel.Memory.Holes

/-!
# What the search for a hole finds

A hole that is found is free and lies in one of the two regions that are searched. The search may
miss a hole: above 4 GB it looks at whole level-0 subtrees only, and below it gives up after ten
candidates that are reserved.
-/

namespace ShellBox

def Mem.Free (m : Mem) (start size : ℕ) : Prop :=
  (∀ p, start ≤ p → p < start + size → m.pt.entry p = none) ∧
    reservationsOverlap m.reservations start size = false

def InLowRegion (start size : ℕ) : Prop := mmapHoleEnd < start ∧ start + size ≤ mmapHoleStart + 1

instance (start size : ℕ) : Decidable (InLowRegion start size) :=
  inferInstanceAs (Decidable (_ ∧ _))

def InHighRegion (start size : ℕ) : Prop := 0x100000 ≤ start ∧ start + size ≤ userAddrMaxPage

instance (start size : ℕ) : Decidable (InHighRegion start size) :=
  inferInstanceAs (Decidable (_ ∧ _))

def Mem.OccupiedSubtree (m : Mem) (page : ℕ) : Prop :=
  m.pt.hasL1 page = true ∨
    reservationsOverlap m.reservations (page / 2 ^ 27 * 2 ^ 27) (2 ^ 27) = true

def Mem.lowReservations (m : Mem) : ℕ :=
  m.reservations.countP (·.meets (mmapHoleEnd + 1) (mmapHoleStart - mmapHoleEnd))

variable {m : Mem} {pt : PageTable} {size fuel page bound start : ℕ} {hole res : Option ℕ}

/-! ### Missing nodes -/

lemma entry_none_of_skip {base : ℕ}
    (h : pt.hasL1 page = false ∧ base = page / 2 ^ 27 * 2 ^ 27 ∨
      pt.hasL2 page = false ∧ base = page / 2 ^ 18 * 2 ^ 18 ∨
      pt.hasL3 page = false ∧ base = page / 2 ^ 9 * 2 ^ 9) :
    ∀ p, base ≤ p → p ≤ page → pt.entry p = none := by
  intro p hle hlt
  rw [Option.eq_none_iff_forall_ne_some]
  intro e he
  obtain ⟨h1, h2, h3⟩ := pt.hasL_of_mapped he
  rcases h with ⟨hnode, rfl⟩ | ⟨hnode, rfl⟩ | ⟨hnode, rfl⟩
  · rw [PageTable.hasL1, show p / 2 ^ 27 = page / 2 ^ 27 by omega] at h1
    exact absurd (hnode.symm.trans h1) (by decide)
  · rw [PageTable.hasL2, show p / 2 ^ 18 = page / 2 ^ 18 by omega] at h2
    exact absurd (hnode.symm.trans h2) (by decide)
  · rw [PageTable.hasL3, show p / 2 ^ 9 = page / 2 ^ 9 by omega] at h3
    exact absurd (hnode.symm.trans h3) (by decide)

/-! ### The low scan -/

/-- The result of a scan is the topmost unmapped range below `bound`. -/
structure Scanned (pt : PageTable) (size bound : ℕ) (res : Option ℕ) : Prop where
  sound : ∀ r, res = some r → mmapHoleEnd < r ∧ r + size ≤ bound ∧
    ∀ p, r ≤ p → p < r + size → pt.entry p = none
  topmost : ∀ a, mmapHoleEnd < a → a + size ≤ bound →
    (∀ p, a ≤ p → p < a + size → pt.entry p = none) → ∃ r, res = some r ∧ a ≤ r

structure Scanning (pt : PageTable) (size page e : ℕ) : Prop where
  above : page < e
  empty : ∀ p, page < p → p < e → pt.entry p = none
  small : e - max (page + 1) (mmapHoleEnd + 1) < size

lemma holeEnd_spec (hsize : 0 < size) (hhole : ∀ e, hole = some e → Scanning pt size page e) :
    page < hole.getD (page + 1) ∧
      (∀ p, page < p → p < hole.getD (page + 1) → pt.entry p = none) ∧
      hole.getD (page + 1) - max (page + 1) (mmapHoleEnd + 1) < size := by
  cases hole with
  | none =>
    refine ⟨Nat.lt_succ_self page, fun p hlt hle => absurd hle ?_, ?_⟩
    · simp only [Option.getD_none]
      omega
    · simp only [Option.getD_none]
      omega
  | some e => exact ⟨(hhole e rfl).above, (hhole e rfl).empty, (hhole e rfl).small⟩

/-- One more unmapped piece, from `base` up to the page: the hole is large enough now, or the scan
goes on below the piece. -/
lemma scanned_piece {base : ℕ} (hsize : 0 < size) (hlow : mmapHoleEnd < page) (hbase : base ≤ page)
    (hnone : ∀ p, base ≤ p → p ≤ page → pt.entry p = none)
    (hhole : ∀ e, hole = some e → Scanning pt size page e)
    (hfound : size ≤ hole.getD (page + 1) - max base (mmapHoleEnd + 1) →
      res = some (hole.getD (page + 1) - size))
    (hgo : hole.getD (page + 1) - max base (mmapHoleEnd + 1) < size →
      base = 0 ∧ res = none ∨ 0 < base ∧
        (Scanning pt size (base - 1) (hole.getD (page + 1)) →
          Scanned pt size (hole.getD (page + 1)) res)) :
    Scanned pt size (hole.getD (page + 1)) res := by
  obtain ⟨hend, hempty, -⟩ := holeEnd_spec hsize hhole
  generalize hole.getD (page + 1) = e at *
  have hall : ∀ p, base ≤ p → p < e → pt.entry p = none := by
    intro p hle hlt
    rcases Nat.lt_or_ge page p with hp | hp
    · exact hempty p hp hlt
    · exact hnone p hle hp
  rcases Nat.lt_or_ge (e - max base (mmapHoleEnd + 1)) size with hsmall | hlarge
  · rcases hgo hsmall with ⟨rfl, rfl⟩ | ⟨hpos, hscan⟩
    · refine ⟨fun _ h => (by cases h), fun a ha hfit _ => ?_⟩
      omega
    · refine hscan ⟨by omega, fun p hlt hle => hall p (by omega) hle, ?_⟩
      rwa [Nat.sub_add_cancel hpos]
  · obtain rfl := hfound hlarge
    refine ⟨fun r hr => ?_, fun a _ hfit _ => ⟨_, rfl, by omega⟩⟩
    obtain rfl := Option.some.inj hr
    exact ⟨by omega, by omega, fun p hle hlt => hall p (by omega) (by omega)⟩

lemma scanned_mapped (hlow : mmapHoleEnd < page) (hsize : 0 < size)
    (hhole : ∀ e, hole = some e → Scanning pt size page e) (hmapped : pt.entry page ≠ none)
    (h : Scanned pt size page res) : Scanned pt size (hole.getD (page + 1)) res := by
  obtain ⟨hend, -, hsmall⟩ := holeEnd_spec hsize hhole
  generalize hole.getD (page + 1) = e at *
  refine ⟨fun r hr => ?_, fun a ha hfit hnone => ?_⟩
  · obtain ⟨hr1, hr2, hr3⟩ := h.sound r hr
    exact ⟨hr1, by omega, hr3⟩
  · have hout : a + size ≤ page := by
      by_contra hno
      -- the range does not fit above the page, so it contains it
      exact hmapped (hnone page (by omega) (by omega))
    exact h.topmost a ha hout hnone

lemma scanned_ptFindHoleFrom (hsize : 0 < size) (hmem : page < memPages) (hfuel : page < fuel)
    (hhole : ∀ e, hole = some e → Scanning pt size page e) :
    Scanned pt size (hole.getD (page + 1)) (ptFindHoleFrom pt size fuel page hole) := by
  induction fuel generalizing page hole with
  | zero => exact absurd hfuel (Nat.not_lt_zero _)
  | succ fuel ih =>
    have hend := holeEnd_spec hsize hhole
    unfold ptFindHoleFrom
    by_cases hlow : page ≤ mmapHoleEnd
    · rw [if_pos hlow]
      refine ⟨fun _ h => (by cases h), fun a ha hfit _ => ?_⟩
      omega
    have hlt : mmapHoleEnd < page := Nat.lt_of_not_le hlow
    rw [if_neg hlow]
    -- a subtree without tables
    have hskip (base : ℕ) (hbase : base ≤ page)
        (hnone : ∀ p, base ≤ p → p ≤ page → pt.entry p = none) :
        Scanned pt size (hole.getD (page + 1))
          (let effectiveBase := if mmapHoleEnd < base then base else mmapHoleEnd + 1
            if size ≤ hole.getD (page + 1) - effectiveBase then some (hole.getD (page + 1) - size)
            else if base = 0 then none
            else ptFindHoleFrom pt size fuel (base - 1) (some (hole.getD (page + 1)))) := by
      have hmax : (if mmapHoleEnd < base then base else mmapHoleEnd + 1) =
          max base (mmapHoleEnd + 1) := by
        split_ifs <;> omega
      simp only [hmax]
      refine scanned_piece hsize hlt hbase hnone hhole (fun h => if_pos h) fun h => ?_
      rw [if_neg (Nat.not_le.mpr h)]
      rcases Nat.eq_zero_or_pos base with hzero | hpos
      · exact Or.inl ⟨hzero, if_pos hzero⟩
      · rw [if_neg hpos.ne']
        have hbelow : base - 1 < page := Nat.sub_one_lt_of_le hpos hbase
        refine Or.inr ⟨hpos, fun hscan => @ih (base - 1) (some (hole.getD (page + 1)))
          (hbelow.trans hmem) (hbelow.trans_le (Nat.lt_succ_iff.mp hfuel)) fun e he => ?_⟩
        rwa [← Option.some.inj he]
    by_cases h1 : pt.hasL1 page
    swap
    · rw [if_pos (by simp [h1])]
      refine hskip _ (Nat.div_mul_le_self _ _) (entry_none_of_skip (Or.inl ⟨by simp [h1], rfl⟩))
    by_cases h2 : pt.hasL2 page
    swap
    · rw [if_neg (by simp [h1]), if_pos (by simp [h2])]
      exact hskip _ (Nat.div_mul_le_self _ _)
        (entry_none_of_skip (Or.inr (Or.inl ⟨by simp [h2], rfl⟩)))
    by_cases h3 : pt.hasL3 page
    swap
    · rw [if_neg (by simp [h1]), if_neg (by simp [h2]), if_pos (by simp [h3])]
      exact hskip _ (Nat.div_mul_le_self _ _)
        (entry_none_of_skip (Or.inr (Or.inr ⟨by simp [h3], rfl⟩)))
    rw [if_neg (by simp [h1]), if_neg (by simp [h2]), if_neg (by simp [h3])]
    have hentry : pt.memPt page = pt.entry page := by
      rw [PageTable.memPt_def, ptIndex_of_lt hmem]
    have hbelow : page - 1 < page := Nat.sub_one_lt_of_lt hlt
    have hfuel' : page - 1 < fuel := hbelow.trans_le (Nat.lt_succ_iff.mp hfuel)
    by_cases hmapped : (pt.memPt page).isSome
    · rw [if_pos hmapped]
      rw [hentry, Option.isSome_iff_ne_none] at hmapped
      have hrest : Scanned pt size (page - 1 + 1) (ptFindHoleFrom pt size fuel (page - 1) none) :=
        @ih (page - 1) none (hbelow.trans hmem) hfuel' fun _ h => (by cases h)
      rw [Nat.sub_add_cancel (Nat.one_le_of_lt hlt)] at hrest
      exact scanned_mapped hlt hsize hhole hmapped hrest
    · rw [if_neg hmapped]
      rw [hentry, Option.not_isSome_iff_eq_none] at hmapped
      -- a single unmapped page
      have hpage : ∀ p, page ≤ p → p ≤ page → pt.entry p = none := by
        intro p hle hle'
        rwa [Nat.le_antisymm hle' hle]
      have hmax : max page (mmapHoleEnd + 1) = page := max_eq_left hlt
      refine scanned_piece hsize hlt le_rfl hpage hhole (fun h => ?_) fun h => ?_
      · rw [hmax] at h
        have hsmall := hend.2.2
        rw [if_pos h, Option.some_inj]
        omega
      · rw [hmax] at h
        refine Or.inr ⟨Nat.zero_lt_of_lt hlt, fun hscan => ?_⟩
        rw [if_neg (Nat.not_le.mpr h)]
        refine @ih (page - 1) (some (hole.getD (page + 1))) (hbelow.trans hmem) hfuel'
          fun e he => ?_
        rwa [← Option.some.inj he]

/-! ### The attempts -/

lemma countP_lt_countP {α : Type} {p q : α → Bool} {l : List α} {x : α}
    (h : ∀ y ∈ l, p y = true → q y = true) (hx : x ∈ l) (hq : q x = true) (hp : ¬ p x = true) :
    l.countP p < l.countP q := by
  obtain ⟨l₁, l₂, rfl⟩ := List.append_of_mem hx
  rw [List.countP_append, List.countP_append, List.countP_cons_of_neg hp,
    List.countP_cons_of_pos hq]
  have h₁ : l₁.countP p ≤ l₁.countP q :=
    List.countP_mono_left fun y hy => h y (List.mem_append_left _ hy)
  have h₂ : l₂.countP p ≤ l₂.countP q :=
    List.countP_mono_left fun y hy => h y (List.mem_append_right _ (List.mem_cons_of_mem _ hy))
  omega

def Mem.lowBelow (m : Mem) (start : ℕ) : ℕ :=
  m.reservations.countP fun r =>
    r.meets (mmapHoleEnd + 1) (mmapHoleStart - mmapHoleEnd) && r.start ≤ start

lemma MemReservation.meets_iff {r : MemReservation} {pages : ℕ} :
    r.meets start pages = true ↔ r.start < start + pages ∧ start < r.start + r.pages := by
  simp [MemReservation.meets]

lemma reservationsOverlap_eq_false {rs : List MemReservation} {pages : ℕ} :
    reservationsOverlap rs start pages = false ↔ ∀ r ∈ rs, ¬ r.meets start pages = true := by
  simp [reservationsOverlap]

lemma lowBelow_le : m.lowBelow start ≤ m.lowReservations :=
  List.countP_mono_left fun _ _ h => (Bool.and_eq_true _ _ ▸ h).1

/-- What the attempts from `start` on leave behind. -/
structure Tried (m : Mem) (size attempts start : ℕ) (res : Option ℕ × ℕ) : Prop where
  sound : ∀ r, res.1 = some r → m.Free r size ∧ InLowRegion r size
  le : res.2 ≤ start
  /-- If a free range is missed, each attempt has used up a reservation. -/
  complete : 0 < size → res.1 = none → ∀ a, mmapHoleEnd < a → a + size ≤ start + 1 →
    m.Free a size → attempts ≤ m.lowBelow start

lemma scanned_start (hsize : 0 < size) (hstart : start ≤ mmapHoleStart) :
    Scanned m.pt size (start + 1) (ptFindHoleFrom m.pt size (start + 1) start none) :=
  @scanned_ptFindHoleFrom m.pt size (start + 1) start none hsize (hstart.trans_lt (by decide))
    start.lt_succ_self fun _ h => (by cases h)

lemma ptFindHoleFrom_zero {r : ℕ} (h : ptFindHoleFrom pt 0 fuel page none = some r) :
    mmapHoleEnd < r ∧ r ≤ page + 1 := by
  induction fuel generalizing page with
  | zero => cases h
  | succ fuel ih =>
    unfold ptFindHoleFrom at h
    simp only [Option.getD_none, Nat.zero_le, if_true, Nat.sub_zero] at h
    split_ifs at h with hlow
    · cases h
      omega
    · cases h
      omega
    · cases h
      omega
    · have := ih h
      omega
    · cases h
      omega

lemma candidate_spec {r : ℕ} (hstart : start ≤ mmapHoleStart)
    (h : ptFindHoleFrom m.pt size (start + 1) start none = some r) :
    mmapHoleEnd < r ∧ r + size ≤ start + 1 ∧ ∀ p, r ≤ p → p < r + size → m.pt.entry p = none := by
  rcases Nat.eq_zero_or_pos size with rfl | hsize
  · have := ptFindHoleFrom_zero h
    exact ⟨this.1, this.2, fun p hle hlt => absurd hlt (Nat.not_lt.mpr hle)⟩
  · exact (scanned_start hsize hstart).sound r h

lemma lowBelow_lt {res : MemReservation} {r : ℕ} (hmem : res ∈ m.reservations)
    (hmeets : res.meets r size = true) (hpos : 0 < res.start) (hr : mmapHoleEnd < r)
    (hfit : r + size ≤ start + 1) (hstart : start ≤ mmapHoleStart) :
    m.lowBelow (res.start - 1) < m.lowBelow start := by
  rw [MemReservation.meets_iff] at hmeets
  have hends : mmapHoleEnd + 1 + (mmapHoleStart - mmapHoleEnd) = mmapHoleStart + 1 := by decide
  refine countP_lt_countP (fun y _ hy => ?_) hmem ?_ ?_
  · rw [Bool.and_eq_true, decide_eq_true_eq] at hy ⊢
    exact ⟨hy.1, by omega⟩
  · rw [Bool.and_eq_true, decide_eq_true_eq, MemReservation.meets_iff, hends]
    omega
  · rw [Bool.and_eq_true, decide_eq_true_eq]
    omega

lemma tried_tryHoles {attempts : ℕ} (hstart : start ≤ mmapHoleStart) :
    Tried m size attempts start (tryHoles m size attempts start) := by
  induction attempts generalizing start with
  | zero => exact ⟨fun _ h => (by cases h), le_rfl, fun _ _ _ _ _ _ => Nat.zero_le _⟩
  | succ attempts ih =>
    unfold tryHoles
    cases hfrom : ptFindHoleFrom m.pt size (start + 1) start none with
    | none =>
      refine ⟨fun _ h => (by cases h), le_rfl, fun hsize _ a ha hfit hfree => ?_⟩
      obtain ⟨r, hr, -⟩ := (scanned_start hsize hstart).topmost a ha hfit hfree.1
      rw [hfrom] at hr
      cases hr
    | some r =>
      obtain ⟨hlow, hfit, hnone⟩ := candidate_spec hstart hfrom
      cases hres : m.reservations.find? (·.meets r size) with
      | none =>
        simp only [hres]
        refine ⟨fun r' hr' => ?_, le_rfl, fun _ h => (by cases h)⟩
        obtain rfl := Option.some.inj hr'
        refine ⟨⟨hnone, reservationsOverlap_eq_false.mpr (List.find?_eq_none.mp hres)⟩, hlow, ?_⟩
        omega
      | some res =>
        simp only [hres]
        have hmem := List.mem_of_find?_eq_some hres
        have hmeets : res.meets r size = true := by simpa using List.find?_some hres
        have hmeets' := MemReservation.meets_iff.mp hmeets
        have hnext := @ih (res.start - 1) (by omega)
        refine ⟨hnext.sound, hnext.le.trans (by omega), fun hsize hlost a ha hafit hfree => ?_⟩
        obtain ⟨r', hr', har⟩ := (scanned_start hsize hstart).topmost a ha hafit hfree.1
        obtain rfl : r = r' := Option.some.inj (hfrom.symm.trans hr')
        -- the free range lies below the reservation, since it is not met by it
        have hbelow : a + size ≤ res.start := by
          have hapart := reservationsOverlap_eq_false.mp hfree.2 res hmem
          rw [MemReservation.meets_iff] at hapart
          omega
        have hcount := hnext.complete hsize hlost a ha (by omega) hfree
        exact hcount.trans_lt (lowBelow_lt hmem hmeets (by omega) hlow hfit hstart)

lemma ptFindHoleLow_spec :
    (∀ r, ptFindHoleLow m size = some r → m.Free r size ∧ InLowRegion r size) ∧
      (0 < size → ptFindHoleLow m size = none → ∀ a, InLowRegion a size → m.Free a size →
        10 ≤ m.lowReservations) := by
  have hstart : (if m.mmapHint = 0 ∨ mmapHoleStart < m.mmapHint ∨
      m.mmapHint ≤ mmapHoleEnd + size then mmapHoleStart else m.mmapHint) ≤ mmapHoleStart := by
    split_ifs with h
    · exact le_rfl
    · exact Nat.le_of_not_lt fun hlt => h (Or.inr (Or.inl hlt))
  unfold ptFindHoleLow
  simp only
  generalize (if m.mmapHint = 0 ∨ mmapHoleStart < m.mmapHint ∨ m.mmapHint ≤ mmapHoleEnd + size
    then mmapHoleStart else m.mmapHint) = first at hstart ⊢
  have htried := @tried_tryHoles m size first 10 hstart
  have hagain := @tried_tryHoles m size mmapHoleStart 10 le_rfl
  cases htry : tryHoles m size 10 first with
  | mk res last =>
    rw [htry] at htried
    cases res with
    | some r => exact ⟨fun r' hr' => htried.sound r' hr', fun _ h => (by cases h)⟩
    | none =>
      simp only
      split_ifs with hlast
      · exact ⟨hagain.sound, fun hsize h a ha hfree =>
          (hagain.complete hsize h a ha.1 ha.2 hfree).trans lowBelow_le⟩
      · -- the first attempts have begun at the top
        obtain rfl : first = mmapHoleStart :=
          le_antisymm hstart ((Nat.le_of_not_lt hlast).trans htried.le)
        exact ⟨fun _ h => (by cases h), fun hsize _ a ha hfree =>
          (htried.complete hsize rfl a ha.1 ha.2 hfree).trans lowBelow_le⟩

/-! ### Above 4 GB -/

lemma occupiedSubtree_congr {p q : ℕ} (h : p / 2 ^ 27 = q / 2 ^ 27) :
    m.OccupiedSubtree p ↔ m.OccupiedSubtree q := by
  rw [Mem.OccupiedSubtree, Mem.OccupiedSubtree, PageTable.hasL1, PageTable.hasL1, h]

lemma occupiedSubtree_of_reserved {res : MemReservation} {p : ℕ} (hmem : res ∈ m.reservations)
    (hle : res.start ≤ p) (hlt : p < res.start + res.pages) : m.OccupiedSubtree p := by
  refine Or.inr (by_contra fun hover => ?_)
  have hapart := reservationsOverlap_eq_false.mp (Bool.eq_false_iff.mpr hover) res hmem
  rw [MemReservation.meets_iff] at hapart
  omega

lemma free_of_unoccupied {r : ℕ} (hsize : 0 < size) (hpos : ∀ r ∈ m.reservations, 0 < r.pages)
    (hno : ∀ p, r ≤ p → p < r + size → ¬ m.OccupiedSubtree p) : m.Free r size := by
  refine ⟨fun p hle hlt => ?_, reservationsOverlap_eq_false.mpr fun res hres hmeets => ?_⟩
  · rw [Option.eq_none_iff_forall_ne_some]
    exact fun e he => hno p hle hlt (Or.inl (m.pt.hasL_of_mapped he).1)
  · rw [MemReservation.meets_iff] at hmeets
    -- the first page of the range that is reserved
    rcases Nat.le_total r res.start with hle | hle
    · exact hno res.start hle hmeets.1
        (occupiedSubtree_of_reserved hres le_rfl (Nat.lt_add_of_pos_right (hpos res hres)))
    · exact hno r le_rfl (by omega) (occupiedSubtree_of_reserved hres hle hmeets.2)

structure HighHole (m : Mem) (size page holeStart holeSize : ℕ) : Prop where
  from4G : 0x100000 ≤ page
  start : holeSize ≠ 0 → 0x100000 ≤ holeStart ∧ holeStart < page ∧ page - holeStart < size
  free : holeSize ≠ 0 → ∀ p, holeStart ≤ p → p < page → ¬ m.OccupiedSubtree p

/-- The result of the high scan is a range of unoccupied subtrees, and it is found if there is
one at or above `low`. -/
structure HighScanned (m : Mem) (size low : ℕ) (res : Option ℕ) : Prop where
  sound : ∀ r, res = some r → InHighRegion r size ∧
    ∀ p, r ≤ p → p < r + size → ¬ m.OccupiedSubtree p
  complete : 0 < size → res = none → ∀ a, low ≤ a → a + size ≤ userAddrMaxPage →
    ∃ p, a ≤ p ∧ p < a + size ∧ m.OccupiedSubtree p

lemma HighHole.at_end {holeStart holeSize a : ℕ} (h : HighHole m size page holeStart holeSize)
    (hsize : 0 < size) (hend : userAddrMaxPage ≤ page)
    (ha : (if holeSize = 0 then page else holeStart) ≤ a) : userAddrMaxPage < a + size := by
  split_ifs at ha with hzero
  · omega
  · have := h.start hzero
    omega

lemma subtreeEnd_spec (hlt : page < userAddrMaxPage) :
    page < (if userAddrMaxPage < page / 2 ^ 27 * 2 ^ 27 + 2 ^ 27 then userAddrMaxPage
        else page / 2 ^ 27 * 2 ^ 27 + 2 ^ 27) ∧
      (if userAddrMaxPage < page / 2 ^ 27 * 2 ^ 27 + 2 ^ 27 then userAddrMaxPage
        else page / 2 ^ 27 * 2 ^ 27 + 2 ^ 27) ≤ userAddrMaxPage ∧
      ∀ p, page ≤ p → p < (if userAddrMaxPage < page / 2 ^ 27 * 2 ^ 27 + 2 ^ 27
        then userAddrMaxPage else page / 2 ^ 27 * 2 ^ 27 + 2 ^ 27) →
        p / 2 ^ 27 = page / 2 ^ 27 := by
  split_ifs with h
  · exact ⟨hlt, le_rfl, fun p hle hlt' => by omega⟩
  · exact ⟨by omega, Nat.le_of_not_lt h, fun p hle hlt' => by omega⟩

lemma highScanned_ptFindHoleHigh {holeStart holeSize : ℕ}
    (hfuel : userAddrMaxPage ≤ page + fuel) (hhole : HighHole m size page holeStart holeSize) :
    HighScanned m size (if holeSize = 0 then page else holeStart)
      (ptFindHoleHigh m size fuel page holeStart holeSize) := by
  induction fuel generalizing page holeStart holeSize with
  | zero =>
    exact ⟨fun _ h => (by cases h), fun hsize _ a ha hfit => absurd hfit (Nat.not_le.mpr
      (hhole.at_end hsize hfuel ha))⟩
  | succ fuel ih =>
    unfold ptFindHoleHigh
    by_cases hlt : page < userAddrMaxPage
    swap
    · rw [if_neg hlt]
      exact ⟨fun _ h => (by cases h), fun hsize _ a ha hfit => absurd hfit (Nat.not_le.mpr
        (hhole.at_end hsize (Nat.le_of_not_lt hlt) ha))⟩
    rw [if_pos hlt]
    -- the pages of the subtree from `page` on
    obtain ⟨hpage, hmax, hsame⟩ := subtreeEnd_spec hlt
    simp only
    generalize (if userAddrMaxPage < page / 2 ^ 27 * 2 ^ 27 + 2 ^ 27 then userAddrMaxPage
      else page / 2 ^ 27 * 2 ^ 27 + 2 ^ 27) = stop at hpage hmax hsame ⊢
    have h4G := hhole.from4G
    have hiff : (m.pt.hasL1 page ||
        reservationsOverlap m.reservations (page / 2 ^ 27 * 2 ^ 27) (2 ^ 27)) = true ↔
        m.OccupiedSubtree page := Bool.or_eq_true_iff
    by_cases hocc : m.OccupiedSubtree page
    · rw [if_pos (hiff.mpr hocc)]
      have hnext := @ih stop holeStart 0 (by omega)
        ⟨by omega, fun h => absurd rfl h, fun h => absurd rfl h⟩
      rw [if_pos rfl] at hnext
      refine ⟨hnext.sound, fun hsize hnone a ha hfit => ?_⟩
      rcases Nat.lt_or_ge a stop with hbefore | hafter
      · -- the range contains an occupied page of this subtree
        rcases Nat.le_total page a with hle | hle
        · exact ⟨a, le_rfl, by omega, (occupiedSubtree_congr (hsame a hle hbefore)).mpr hocc⟩
        · refine ⟨page, hle, ?_, hocc⟩
          split_ifs at ha with hzero
          · omega
          · have := hhole.start hzero
            omega
      · exact hnext.complete hsize hnone a hafter hfit
    · rw [if_neg (mt hiff.mp hocc)]
      have hfirst : (if holeSize = 0 then
          if page / 2 ^ 27 * 2 ^ 27 < page then page else page / 2 ^ 27 * 2 ^ 27 else holeStart) =
          if holeSize = 0 then page else holeStart := by
        split_ifs <;> omega
      simp only [hfirst]
      have hlow : 0x100000 ≤ (if holeSize = 0 then page else holeStart) ∧
          (if holeSize = 0 then page else holeStart) ≤ page := by
        split_ifs with hzero
        · omega
        · have := hhole.start hzero
          omega
      have hfree : ∀ p, (if holeSize = 0 then page else holeStart) ≤ p → p < stop →
          ¬ m.OccupiedSubtree p := by
        intro p hle hlt'
        rcases Nat.lt_or_ge p page with hp | hp
        · split_ifs at hle with hzero
          · omega
          · exact hhole.free hzero p hle hp
        · exact mt (occupiedSubtree_congr (hsame p hp hlt')).mp hocc
      generalize (if holeSize = 0 then page else holeStart) = low at hlow hfree ⊢
      split_ifs with hlarge
      · refine ⟨fun r hr => ?_, fun _ h => (by cases h)⟩
        obtain rfl := Option.some.inj hr
        exact ⟨⟨hlow.1, by omega⟩, fun p hle hlt' => hfree p hle (by omega)⟩
      · have hnext := @ih stop low (stop - low) (by omega)
          ⟨by omega, fun _ => ⟨hlow.1, by omega, by omega⟩, fun _ => hfree⟩
        rwa [if_neg (by omega)] at hnext

lemma highScanned_start : HighScanned m size 0x100000
    (ptFindHoleHigh m size userAddrMaxPage 0x100000 0x100000 0) := by
  have h := @highScanned_ptFindHoleHigh m size userAddrMaxPage 0x100000 0x100000 0
    (Nat.le_add_left _ _) ⟨le_rfl, fun h => absurd rfl h, fun h => absurd rfl h⟩
  rwa [if_pos rfl] at h

lemma ptFindHoleHighFree_spec :
    (∀ r, ptFindHoleHighFree m size = some r → m.Free r size ∧ InHighRegion r size ∧
      ∀ p, r ≤ p → p < r + size → ¬ m.OccupiedSubtree p) ∧
      (0 < size → (∀ r ∈ m.reservations, 0 < r.pages) → ptFindHoleHighFree m size = none →
        ∀ a, InHighRegion a size → ∃ p, a ≤ p ∧ p < a + size ∧ m.OccupiedSubtree p) := by
  have hscan := @highScanned_start m size
  refine ⟨fun r hr => ?_, fun hsize hpos hnone a ha => ?_⟩
  · obtain ⟨hfound, hapart⟩ := Option.filter_eq_some_iff.mp hr
    obtain ⟨hin, hno⟩ := hscan.sound r hfound
    refine ⟨⟨fun p hle hlt => ?_, by simpa using hapart⟩, hin, hno⟩
    rw [Option.eq_none_iff_forall_ne_some]
    exact fun e he => hno p hle hlt (Or.inl (m.pt.hasL_of_mapped he).1)
  · refine hscan.complete hsize ?_ a ha.1 ha.2
    -- the test for reservations never rejects the candidate
    rw [Option.eq_none_iff_forall_ne_some]
    intro r hfound
    refine absurd (Option.eq_none_iff_forall_ne_some.mp hnone r) (not_not.mpr ?_)
    refine Option.filter_eq_some_iff.mpr ⟨hfound, ?_⟩
    rw [(free_of_unoccupied hsize hpos (hscan.sound r hfound).2).2]
    rfl

/-! ### Both regions -/

lemma ptFindHoleImpl_eq_none {preferHigh : Bool} :
    (ptFindHoleImpl m size preferHigh).1 = none ↔
      ptFindHoleHighFree m size = none ∧ ptFindHoleLow m size = none := by
  unfold ptFindHoleImpl
  cases ptFindHoleHighFree m size <;> cases ptFindHoleLow m size <;> cases preferHigh <;> simp

/-- A hole that is found is free. If none is found, then every range above 4 GB has a page in an
occupied subtree, and a free range is left below only if there are ten reservations. -/
theorem ptFindHoleImpl_exact (m : Mem) (size : ℕ) (preferHigh : Bool) :
    (∀ r, (ptFindHoleImpl m size preferHigh).1 = some r →
      m.Free r size ∧ (InLowRegion r size ∨ InHighRegion r size)) ∧
    (0 < size → (∀ r ∈ m.reservations, 0 < r.pages) →
      (ptFindHoleImpl m size preferHigh).1 = none →
      (∀ a, InHighRegion a size → ∃ p, a ≤ p ∧ p < a + size ∧ m.OccupiedSubtree p) ∧
      ∀ a, InLowRegion a size → m.Free a size → 10 ≤ m.lowReservations) := by
  obtain ⟨hhigh, hhigh'⟩ := @ptFindHoleHighFree_spec m size
  obtain ⟨hlow, hlow'⟩ := @ptFindHoleLow_spec m size
  refine ⟨fun r hr => ?_, fun hsize hpos hnone => ?_⟩
  · rcases ptFindHoleImpl_cases (Prod.ext hr rfl) with h | h
    · exact ⟨(hhigh r h).1, Or.inr (hhigh r h).2.1⟩
    · exact ⟨(hlow r h).1, Or.inl (hlow r h).2⟩
  · obtain ⟨hnone₁, hnone₂⟩ := ptFindHoleImpl_eq_none.mp hnone
    exact ⟨hhigh' hsize hpos hnone₁, hlow' hsize hnone₂⟩

/-- The tables of an unmapped page stay: nothing is mapped or reserved here. -/
def Mem.emptyTables : Mem :=
  { Mem.init with pt := { entry := fun _ => none, tables := [2 ^ 26], mapped := nofun } }

/-- Ten single pages, two apart from each other, and everything above 4 GB are reserved. -/
def Mem.tenReservations : Mem :=
  { Mem.init with reservations :=
      ⟨2 ^ 20, 2 ^ 36 - 2 ^ 20, pAnonymous, by decide, by simp [Flags.IsMapFlags, pAnonymous]⟩ ::
        (List.range 10).map fun k =>
          ⟨mmapHoleStart - 1 - 2 * k, 1, pAnonymous, by simp [mmapHoleStart, memPages]; omega,
            by simp [Flags.IsMapFlags, pAnonymous]⟩ }

lemma emptyTables_none : (ptFindHoleImpl Mem.emptyTables (2 ^ 35 - 2 ^ 20 + 1) false).1 = none := by
  rw [ptFindHoleImpl_eq_none, Option.eq_none_iff_forall_ne_some,
    Option.eq_none_iff_forall_ne_some]
  refine ⟨fun r hr => ?_, fun r hr => ?_⟩
  · obtain ⟨-, ⟨hge, hle⟩, hno⟩ := ptFindHoleHighFree_spec.1 r hr
    have hocc {p : ℕ} (h : p / 2 ^ 27 = 2 ^ 8) : Mem.emptyTables.OccupiedSubtree p := by
      refine Or.inl ?_
      rw [PageTable.hasL1, h]
      rfl
    rw [userAddrMaxPage] at hle
    rcases Nat.le_total r (2 ^ 35) with h | h
    · exact hno (2 ^ 35) h (by omega) (hocc (by norm_num))
    · exact hno r le_rfl (by omega) (hocc (by omega))
  · have hlow := (ptFindHoleLow_spec.1 r hr).2
    have := hlow.2
    rw [mmapHoleStart] at this
    omega

/-- An unreachable free range above 4 GB, and one below that ten attempts do not reach. -/
theorem ptFindHoleImpl_misses :
    ((ptFindHoleImpl Mem.emptyTables (2 ^ 35 - 2 ^ 20 + 1) false).1 = none ∧
      InHighRegion (2 ^ 35 + 1) (2 ^ 35 - 2 ^ 20 + 1) ∧
      Mem.emptyTables.Free (2 ^ 35 + 1) (2 ^ 35 - 2 ^ 20 + 1)) ∧
    ((ptFindHoleImpl Mem.tenReservations 2 false).1 = none ∧
      InLowRegion 0x1000 2 ∧ Mem.tenReservations.Free 0x1000 2) := by
  refine ⟨⟨emptyTables_none, by decide, fun _ _ _ => rfl, rfl⟩, ?_, by decide,
    fun _ _ _ => rfl, by decide +kernel⟩
  decide +kernel

/-- The two answers: a page of an empty address space, and the unreachable range. -/
theorem ptFindHoleImpl_exact_emptyTables :
    (∃ r, (ptFindHoleImpl Mem.emptyTables 1 false).1 = some r ∧ Mem.emptyTables.Free r 1) ∧
      ∃ p, 2 ^ 35 + 1 ≤ p ∧ p < 2 ^ 35 + 1 + (2 ^ 35 - 2 ^ 20 + 1) ∧
        Mem.emptyTables.OccupiedSubtree p := by
  have hfound : (ptFindHoleImpl Mem.emptyTables 1 false).1 = some mmapHoleStart := by
    decide +kernel
  refine ⟨⟨mmapHoleStart, hfound, ?_⟩, ?_⟩
  · exact ((ptFindHoleImpl_exact Mem.emptyTables 1 false).1 mmapHoleStart hfound).1
  · exact ((ptFindHoleImpl_exact Mem.emptyTables (2 ^ 35 - 2 ^ 20 + 1) false).2 (by decide) nofun
      emptyTables_none).1 (2 ^ 35 + 1) (by decide)

end ShellBox
