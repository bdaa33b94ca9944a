import ShellBox.Kernel.Memory.Mapping

/-!
# Finding a hole

`pt_find_hole` looks for an unmapped and unreserved range, first downwards below
`MMAP_HOLE_START`, skipping whole subtrees without tables, then above 4 GB. A range it
returns lies inside the guest address space.
-/

namespace ShellBox

def mmapHoleStart : ℕ := 0xefffd

def mmapHoleEnd : ℕ := 0x100

def userAddrMaxPage : ℕ := 0xFFFFFFFFF

/-- `pt_find_hole_from`: `hole` is the end of the hole the scan is in, if it is in one. A
subtree that is not allocated is skipped in one round. -/
def ptFindHoleFrom (pt : PageTable) (size : ℕ) : ℕ → ℕ → Option ℕ → Option ℕ
  | 0, _, _ => none
  | fuel + 1, page, hole =>
    if page ≤ mmapHoleEnd then none
    else
      let holeEnd := hole.getD (page + 1)
      let skip (base : ℕ) : Option ℕ :=
        let effectiveBase := if mmapHoleEnd < base then base else mmapHoleEnd + 1
        if size ≤ holeEnd - effectiveBase then some (holeEnd - size)
        else if base = 0 then none
        else ptFindHoleFrom pt size fuel (base - 1) (some holeEnd)
      if !pt.hasL1 page then skip (page / 2 ^ 27 * 2 ^ 27)
      else if !pt.hasL2 page then skip (page / 2 ^ 18 * 2 ^ 18)
      else if !pt.hasL3 page then skip (page / 2 ^ 9 * 2 ^ 9)
      else if (pt.memPt page).isSome then ptFindHoleFrom pt size fuel (page - 1) none
      else if size ≤ holeEnd - page then some page
      else ptFindHoleFrom pt size fuel (page - 1) (some holeEnd)

/-- `pt_find_hole_high`: whole level-0 subtrees above 4 GB with neither tables nor
reservations. -/
def ptFindHoleHigh (m : Mem) (size : ℕ) : ℕ → ℕ → ℕ → ℕ → Option ℕ
  | 0, _, _, _ => none
  | fuel + 1, page, holeStart, holeSize =>
    if page < userAddrMaxPage then
      let l0Base := page / 2 ^ 27 * 2 ^ 27
      let subtreeEnd :=
        if userAddrMaxPage < l0Base + 2 ^ 27 then userAddrMaxPage else l0Base + 2 ^ 27
      if m.pt.hasL1 page || reservationsOverlap m.reservations l0Base (2 ^ 27) then
        ptFindHoleHigh m size fuel subtreeEnd holeStart 0
      else
        let holeStart :=
          if holeSize = 0 then (if l0Base < page then page else l0Base) else holeStart
        if size ≤ subtreeEnd - holeStart then some holeStart
        else ptFindHoleHigh m size fuel subtreeEnd holeStart (subtreeEnd - holeStart)
    else none

/-- The attempts of `pt_find_hole_impl` in the low region: a candidate that meets a
reservation moves the start of the scan below it. -/
def tryHoles (m : Mem) (size : ℕ) : ℕ → ℕ → Option ℕ × ℕ
  | 0, start => (none, start)
  | attempts + 1, start =>
    match ptFindHoleFrom m.pt size (start + 1) start none with
    | none => (none, start)
    | some result =>
      match m.reservations.find? (·.meets result size) with
      | none => (some result, start)
      | some r => tryHoles m size attempts (r.start - 1)

def ptFindHoleHighFree (m : Mem) (size : ℕ) : Option ℕ :=
  (ptFindHoleHigh m size userAddrMaxPage 0x100000 0x100000 0).filter fun result =>
    !reservationsOverlap m.reservations result size

def ptFindHoleLow (m : Mem) (size : ℕ) : Option ℕ :=
  let hint := m.mmapHint
  let start := if hint = 0 ∨ mmapHoleStart < hint ∨ hint ≤ mmapHoleEnd + size then mmapHoleStart
    else hint
  match tryHoles m size 10 start with
  | (some result, _) => some result
  | (none, start) => if start < mmapHoleStart then (tryHoles m size 10 mmapHoleStart).1 else none

/-- `pt_find_hole_impl`, with the address space whose hint it has moved. -/
def ptFindHoleImpl (m : Mem) (size : ℕ) (preferHigh : Bool) : Option ℕ × Mem :=
  match if preferHigh then ptFindHoleHighFree m size else none with
  | some result => (some result, m)
  | none =>
    match ptFindHoleLow m size with
    | some result => (some result, { m with mmapHint := result - 1 })
    | none => (if preferHigh then none else ptFindHoleHighFree m size, m)

/-! ### Where holes lie -/

/-- A hole of the low scan starts above `MMAP_HOLE_END`, and ends below every bound on the page
the scan starts at. -/
lemma ptFindHoleFrom_bounds {pt : PageTable} {size fuel page bound r : ℕ} {hole : Option ℕ}
    (hsize : 0 < size) (hpage : page < bound) (hhole : ∀ e, hole = some e → e ≤ bound)
    (h : ptFindHoleFrom pt size fuel page hole = some r) : 0 < r ∧ r + size ≤ bound := by
  induction fuel generalizing page hole with
  | zero => simp [ptFindHoleFrom] at h
  | succ fuel ih =>
    have hend : hole.getD (page + 1) ≤ bound := by
      cases hole with
      | none => exact hpage
      | some e => exact hhole e rfl
    have hsome : ∀ e, some (hole.getD (page + 1)) = some e → e ≤ bound :=
      fun e he => Option.some.inj he ▸ hend
    have hskip : ∀ base, base ≤ page →
        (let effectiveBase := if mmapHoleEnd < base then base else mmapHoleEnd + 1
          if size ≤ hole.getD (page + 1) - effectiveBase then some (hole.getD (page + 1) - size)
          else if base = 0 then none
          else ptFindHoleFrom pt size fuel (base - 1) (some (hole.getD (page + 1)))) = some r →
        0 < r ∧ r + size ≤ bound := by
      intro base hbase hr
      simp only at hr
      split_ifs at hr
      · have := Option.some.inj hr
        omega
      · exact ih (by omega) hsome hr
      · have := Option.some.inj hr
        omega
      · exact ih (by omega) hsome hr
    unfold ptFindHoleFrom at h
    by_cases hlow : page ≤ mmapHoleEnd
    · simp [hlow] at h
    rw [if_neg hlow] at h
    by_cases h1 : (!pt.hasL1 page) = true
    · rw [if_pos h1] at h
      exact hskip _ (Nat.div_mul_le_self _ _) h
    rw [if_neg h1] at h
    by_cases h2 : (!pt.hasL2 page) = true
    · rw [if_pos h2] at h
      exact hskip _ (Nat.div_mul_le_self _ _) h
    rw [if_neg h2] at h
    by_cases h3 : (!pt.hasL3 page) = true
    · rw [if_pos h3] at h
      exact hskip _ (Nat.div_mul_le_self _ _) h
    rw [if_neg h3] at h
    split_ifs at h
    · exact ih (by omega) (by simp) h
    · obtain rfl := Option.some.inj h
      omega
    · exact ih (by omega) hsome h

lemma ptFindHoleHigh_bounds {m : Mem} {size fuel page holeStart holeSize r : ℕ}
    (hsize : 0 < size) (hpage : 0 < page) (hstart : 0 < holeStart)
    (h : ptFindHoleHigh m size fuel page holeStart holeSize = some r) :
    0 < r ∧ r + size ≤ userAddrMaxPage := by
  induction fuel generalizing page holeStart holeSize with
  | zero => simp [ptFindHoleHigh] at h
  | succ fuel ih =>
    unfold ptFindHoleHigh at h
    by_cases hlt : page < userAddrMaxPage
    swap
    · simp [hlt] at h
    rw [if_pos hlt] at h
    simp only at h
    have hsub : 0 < (if userAddrMaxPage < page / 2 ^ 27 * 2 ^ 27 + 2 ^ 27 then userAddrMaxPage
          else page / 2 ^ 27 * 2 ^ 27 + 2 ^ 27) ∧
        (if userAddrMaxPage < page / 2 ^ 27 * 2 ^ 27 + 2 ^ 27 then userAddrMaxPage
          else page / 2 ^ 27 * 2 ^ 27 + 2 ^ 27) ≤ userAddrMaxPage := by
      split_ifs <;> omega
    generalize (if userAddrMaxPage < page / 2 ^ 27 * 2 ^ 27 + 2 ^ 27 then userAddrMaxPage
      else page / 2 ^ 27 * 2 ^ 27 + 2 ^ 27) = subtreeEnd at h hsub
    have hfrom : 0 < (if holeSize = 0 then
        (if page / 2 ^ 27 * 2 ^ 27 < page then page else page / 2 ^ 27 * 2 ^ 27)
        else holeStart) := by
      split_ifs <;> omega
    generalize (if holeSize = 0 then
      (if page / 2 ^ 27 * 2 ^ 27 < page then page else page / 2 ^ 27 * 2 ^ 27)
      else holeStart) = first at h hfrom
    split_ifs at h
    · exact ih hsub.1 hstart h
    · obtain rfl := Option.some.inj h
      omega
    · exact ih hsub.1 hfrom h

lemma tryHoles_bounds {m : Mem} {size attempts start r : ℕ} (hsize : 0 < size)
    (hstart : start ≤ mmapHoleStart) (h : (tryHoles m size attempts start).1 = some r) :
    0 < r ∧ r + size ≤ mmapHoleStart + 1 := by
  induction attempts generalizing start with
  | zero => simp [tryHoles] at h
  | succ attempts ih =>
    unfold tryHoles at h
    cases hfrom : ptFindHoleFrom m.pt size (start + 1) start none with
    | none => simp [hfrom] at h
    | some result =>
      have hbounds := ptFindHoleFrom_bounds hsize (Nat.lt_succ_self start) (by simp) hfrom
      simp only [hfrom] at h
      cases hres : m.reservations.find? (·.meets result size) with
      | none =>
        simp only [hres, Option.some.injEq] at h
        omega
      | some res =>
        -- the next scan starts below a reservation that begins before the candidate ends
        have hmeets := List.find?_some hres
        simp only [MemReservation.meets, Bool.and_eq_true, decide_eq_true_eq] at hmeets
        simp only [hres] at h
        exact ih (by omega) h

lemma ptFindHoleLow_bounds {m : Mem} {size r : ℕ} (hsize : 0 < size)
    (h : ptFindHoleLow m size = some r) : 0 < r ∧ r + size ≤ mmapHoleStart + 1 := by
  unfold ptFindHoleLow at h
  simp only at h
  generalize hs : (if m.mmapHint = 0 ∨ mmapHoleStart < m.mmapHint ∨
    m.mmapHint ≤ mmapHoleEnd + size then mmapHoleStart else m.mmapHint) = start at h
  have hstart : start ≤ mmapHoleStart := by
    rw [← hs]
    split_ifs <;> omega
  cases htry : tryHoles m size 10 start with
  | mk res start' =>
    cases res with
    | some r' =>
      simp only [htry, Option.some.injEq] at h
      exact tryHoles_bounds hsize hstart (by rw [htry, h])
    | none =>
      simp only [htry] at h
      split_ifs at h
      exact tryHoles_bounds hsize le_rfl h

lemma ptFindHoleImpl_cases {m m' : Mem} {size r : ℕ} {preferHigh : Bool}
    (h : ptFindHoleImpl m size preferHigh = (some r, m')) :
    ptFindHoleHighFree m size = some r ∨ ptFindHoleLow m size = some r := by
  unfold ptFindHoleImpl at h
  cases hh : ptFindHoleHighFree m size with
  | some r' =>
    cases hl : ptFindHoleLow m size with
    | some l => cases preferHigh <;> simp_all
    | none => cases preferHigh <;> simp_all
  | none =>
    cases hl : ptFindHoleLow m size with
    | some l => cases preferHigh <;> simp_all
    | none => cases preferHigh <;> simp_all

lemma ptFindHoleImpl_bounds {m m' : Mem} {size r : ℕ} {preferHigh : Bool} (hsize : 0 < size)
    (h : ptFindHoleImpl m size preferHigh = (some r, m')) : 0 < r ∧ r + size ≤ memPages := by
  rcases ptFindHoleImpl_cases h with hhigh | hlow
  · obtain ⟨hpos, hfits⟩ := ptFindHoleHigh_bounds hsize (by decide) (by decide)
      (Option.filter_eq_some_iff.mp hhigh).1
    exact ⟨hpos, hfits.trans (by decide)⟩
  · obtain ⟨hpos, hfits⟩ := ptFindHoleLow_bounds hsize hlow
    exact ⟨hpos, hfits.trans (by decide)⟩

/-- The range that `pt_find_hole` returns. -/
theorem ptFindHoleImpl_fits {m m' : Mem} {size r : ℕ} {preferHigh : Bool} (hsize : 0 < size)
    (h : ptFindHoleImpl m size preferHigh = (some r, m')) : r + size ≤ memPages :=
  (ptFindHoleImpl_bounds hsize h).2

/-- A hole does not start at page zero. -/
theorem ptFindHoleImpl_pos {m m' : Mem} {size r : ℕ} {preferHigh : Bool} (hsize : 0 < size)
    (h : ptFindHoleImpl m size preferHigh = (some r, m')) : 0 < r :=
  (ptFindHoleImpl_bounds hsize h).1

end ShellBox
