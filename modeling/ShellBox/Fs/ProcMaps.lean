import ShellBox.Kernel.Memory.PageTable

/-!
# The listing of the mapped regions

`/proc/pid/maps` prints a line for each run of pages with one protection and one backing object,
or of anonymous pages with one protection. The walk goes from page to page with `mem_next_page`,
which jumps over what has no array of entries, also where it looks for the end of a region. What
it jumps over there is printed as a part of the region.
-/

namespace ShellBox

/-- A line of the listing: the bounds of the region, and the entry of its first page, which the
letters of the protection are taken from. -/
structure MapsRegion where
  start : ℕ
  stop : ℕ
  startPt : PtEntry
  deriving DecidableEq, Repr

def MapsRegion.Has (r : MapsRegion) (p : ℕ) : Prop := r.start ≤ p ∧ p < r.stop

/-- The region goes on with a page: it has the protection of the first one, and the data of the
first one unless both are anonymous. -/
def sameRegion (startPt pt : PtEntry) : Bool :=
  pt.flags &&& pRwx == startPt.flags &&& pRwx &&
    (pt.data == startPt.data || pt.flags.anonymous && startPt.flags.anonymous)

lemma sameRegion_self (e : PtEntry) : sameRegion e e = true := by simp [sameRegion]

lemma sameRegion_prot {startPt pt : PtEntry} (h : sameRegion startPt pt = true) :
    pt.flags &&& pRwx = startPt.flags &&& pRwx := by
  simp only [sameRegion, Bool.and_eq_true, beq_iff_eq] at h
  exact h.1

namespace PageTable

/-! ### Where the next page is -/

lemma memPt_of_lt (pt : PageTable) {p : ℕ} (h : p < memPages) : pt.memPt p = pt.entry p := by
  rw [memPt, ptIndex_of_lt h]

lemma skipUnallocated_le (pt : PageTable) (fuel : ℕ) {page : ℕ} (h : page ≤ memPages) :
    pt.skipUnallocated fuel page ≤ memPages := by
  induction fuel generalizing page with
  | zero => exact h
  | succ fuel ih =>
    simp only [skipUnallocated]
    have hmem : memPages = 2 ^ 36 := rfl
    split_ifs
    · exact h
    · exact ih (by omega)
    · exact ih (by omega)
    · exact ih (by omega)
    · exact h

lemma memNextPage_le (pt : PageTable) {page : ℕ} (h : page < memPages) :
    pt.memNextPage page ≤ memPages := pt.skipUnallocated_le _ h

lemma memNextPage_unfold (pt : PageTable) (page : ℕ) :
    pt.memNextPage page = pt.skipUnallocated (memPages - 1 + 1) (page + 1) := rfl

lemma memNextPage_eq_succ_iff (pt : PageTable) {page : ℕ} (h : page + 1 < memPages) :
    pt.memNextPage page = page + 1 ↔ (page + 1) / 512 ∈ pt.tables := by
  have skipped : ∀ next, page + 1 < next → pt.skipUnallocated (memPages - 1) next ≠ page + 1 := by
    intro next hlt heq
    have hge := (pt.skipUnallocated_spec (memPages - 1) next).1
    omega
  rw [memNextPage_unfold, skipUnallocated, if_neg (by omega)]
  by_cases hmem : (page + 1) / 512 ∈ pt.tables
  · have h1 : pt.hasL1 (page + 1) = true := List.any_eq_true.mpr ⟨_, hmem, by simp; omega⟩
    have h2 : pt.hasL2 (page + 1) = true := List.any_eq_true.mpr ⟨_, hmem, by simp; omega⟩
    have h3 : pt.hasL3 (page + 1) = true := List.any_eq_true.mpr ⟨_, hmem, by simp⟩
    simp [h1, h2, h3, hmem]
  · have h3 : pt.hasL3 (page + 1) = false := by
      simp only [hasL3, List.any_eq_false, beq_iff_eq]
      intro t ht heq
      exact hmem (by rw [← show t = (page + 1) / 512 by omega]; exact ht)
    simp only [hmem, iff_false]
    split_ifs with h1 h2
    · exact skipped _ (by omega)
    · exact skipped _ (by omega)
    · exact skipped _ (by omega)
    · simp [h3] at *

/-! ### The loops of the dump -/

def findRegion (pt : PageTable) (page : ℕ) : ℕ :=
  if page < memPages ∧ pt.memPt page = none then pt.findRegion (pt.memNextPage page) else page
termination_by memPages - page
decreasing_by
  have := pt.lt_memNextPage page
  omega

def findEnd (pt : PageTable) (startPt : PtEntry) (page : ℕ) : ℕ :=
  if page < memPages ∧ (pt.memPt page).any (sameRegion startPt) = true then
    pt.findEnd startPt (pt.memNextPage page)
  else page
termination_by memPages - page
decreasing_by
  have := pt.lt_memNextPage page
  omega

lemma findRegion_spec (pt : PageTable) (page : ℕ) :
    page ≤ pt.findRegion page ∧
      (∀ p, page ≤ p → p < pt.findRegion page → p < memPages → pt.memPt p = none) ∧
      (pt.findRegion page < memPages → pt.memPt (pt.findRegion page) ≠ none) := by
  induction page using findRegion.induct pt with
  | case1 page h ih =>
    rw [findRegion, if_pos h]
    obtain ⟨hle, hnone, hmapped⟩ := ih
    have hlt := pt.lt_memNextPage page
    refine ⟨by omega, fun p hp hpf hmem => ?_, hmapped⟩
    rcases Nat.lt_or_ge p (pt.memNextPage page) with hnext | hnext
    · rcases Nat.eq_or_lt_of_le hp with rfl | hp
      · exact h.2
      · rw [pt.memPt_of_lt hmem]
        exact pt.memNextPage_skips hp hnext hmem
    · exact hnone p hnext hpf hmem
  | case2 page h =>
    rw [findRegion, if_neg h]
    exact ⟨le_rfl, fun p hp hlt => absurd hlt (by omega), fun hlt hnone => h ⟨hlt, hnone⟩⟩

lemma le_findEnd (pt : PageTable) (e : PtEntry) (page : ℕ) : page ≤ pt.findEnd e page := by
  induction page using findEnd.induct pt e with
  | case1 page h ih =>
    rw [findEnd, if_pos h]
    exact (pt.lt_memNextPage page).le.trans ih
  | case2 page h => rw [findEnd, if_neg h]

lemma findEnd_le (pt : PageTable) (e : PtEntry) {page : ℕ} (hp : page ≤ memPages) :
    pt.findEnd e page ≤ memPages := by
  induction page using findEnd.induct pt e with
  | case1 page h ih =>
    rw [findEnd, if_pos h]
    exact ih (pt.memNextPage_le h.1)
  | case2 page h =>
    rw [findEnd, if_neg h]
    exact hp

lemma lt_findEnd (pt : PageTable) {e : PtEntry} {page : ℕ} (hp : page < memPages)
    (he : pt.memPt page = some e) : page < pt.findEnd e page := by
  rw [findEnd, if_pos ⟨hp, by simp [he, sameRegion_self]⟩]
  exact (pt.lt_memNextPage page).trans_le (pt.le_findEnd e _)

lemma findEnd_prot (pt : PageTable) {e e' : PtEntry} {page p : ℕ} (hp : page ≤ p)
    (hlt : p < pt.findEnd e page) (hmem : p < memPages) (he : pt.memPt p = some e') :
    e'.flags &&& pRwx = e.flags &&& pRwx := by
  induction page using findEnd.induct pt e with
  | case1 page h ih =>
    rw [findEnd, if_pos h] at hlt
    rcases Nat.lt_or_ge p (pt.memNextPage page) with hnext | hnext
    · rcases Nat.eq_or_lt_of_le hp with rfl | hp
      · have hsame := h.2
        rw [he] at hsame
        exact sameRegion_prot hsame
      · rw [pt.memPt_of_lt hmem, pt.memNextPage_skips hp hnext hmem] at he
        cases he
    · exact ih hnext hlt
  | case2 page h =>
    rw [findEnd, if_neg h] at hlt
    omega

lemma memNextPage_le_findEnd (pt : PageTable) {e e' : PtEntry} {page p : ℕ} (hp : page ≤ p)
    (hlt : p < pt.findEnd e page) (hmem : p < memPages) (he : pt.memPt p = some e') :
    pt.memNextPage p ≤ pt.findEnd e page := by
  induction page using findEnd.induct pt e with
  | case1 page h ih =>
    rw [findEnd, if_pos h] at hlt ⊢
    rcases Nat.lt_or_ge p (pt.memNextPage page) with hnext | hnext
    · rcases Nat.eq_or_lt_of_le hp with rfl | hp
      · exact pt.le_findEnd e _
      · rw [pt.memPt_of_lt hmem, pt.memNextPage_skips hp hnext hmem] at he
        cases he
    · exact ih hnext hlt
  | case2 page h =>
    rw [findEnd, if_neg h] at hlt
    omega

/-- The outer loop of `proc_maps_dump`. The search before it has stopped at a mapped page, so
there is an entry. -/
def mapsFrom (pt : PageTable) (page : ℕ) : List MapsRegion :=
  if _hend : memPages ≤ pt.findRegion page then []
  else
    match _he : pt.memPt (pt.findRegion page) with
    | none => []
    | some startPt =>
      ⟨pt.findRegion page, pt.findEnd startPt (pt.findRegion page), startPt⟩ ::
        pt.mapsFrom (pt.findEnd startPt (pt.findRegion page))
termination_by memPages - page
decreasing_by
  have hle := (pt.findRegion_spec page).1
  have hlt := pt.lt_findEnd (by omega) _he
  omega

end PageTable

/-- `proc_maps_dump`: the regions it prints. A task without memory has none. -/
def procMapsDump : Option PageTable → List MapsRegion
  | none     => []
  | some mem => mem.mapsFrom 0

/-- The listing is exact: the regions are in ascending order without an overlap, every mapped page
is in just one of them, and every page of a region is mapped with the protection printed. -/
structure MapsExact (mem : PageTable) (rs : List MapsRegion) : Prop where
  ascending : rs.Pairwise fun r r' => r.stop ≤ r'.start
  nonempty : ∀ r ∈ rs, r.start < r.stop ∧ r.stop ≤ memPages
  listed : ∀ p < memPages, mem.memPt p ≠ none → ∃! r, r ∈ rs ∧ r.Has p
  mapped : ∀ r ∈ rs, ∀ p, r.Has p →
    ∃ e, mem.memPt p = some e ∧ e.flags &&& pRwx = r.startPt.flags &&& pRwx

/-- Where a mapped page is the last of its array of entries, the array that follows exists too. -/
def PageTable.ArraysAdjoin (mem : PageTable) : Prop :=
  ∀ p, p + 1 < memPages → mem.memPt p ≠ none → p % 512 = 511 → p / 512 + 1 ∈ mem.tables

namespace PageTable

variable {mem : PageTable} {page p : ℕ}

lemma mapsFrom_cases (mem : PageTable) (page : ℕ) :
    (mem.mapsFrom page = [] ∧ ∀ p, page ≤ p → p < memPages → mem.memPt p = none) ∨
      ∃ start e, page ≤ start ∧ start < memPages ∧ mem.memPt start = some e ∧
        (∀ p, page ≤ p → p < start → mem.memPt p = none) ∧
        mem.mapsFrom page = ⟨start, mem.findEnd e start, e⟩ ::
          mem.mapsFrom (mem.findEnd e start) := by
  obtain ⟨hle, hnone, hmapped⟩ := mem.findRegion_spec page
  rw [mapsFrom]
  by_cases hend : memPages ≤ mem.findRegion page
  · exact .inl ⟨by rw [dif_pos hend], fun p hp hlt => hnone p hp (by omega) hlt⟩
  · obtain ⟨e, he⟩ := Option.ne_none_iff_exists'.mp (hmapped (by omega))
    refine .inr ⟨mem.findRegion page, e, hle, by omega, he,
      fun p hp hlt => hnone p hp hlt (by omega), ?_⟩
    rw [dif_neg hend]
    split
    · next h => rw [he] at h; cases h
    · next e' h =>
      obtain rfl : e = e' := Option.some.inj (he.symm.trans h)
      rfl

lemma mapsFrom_induction {P : ℕ → List MapsRegion → Prop}
    (done : ∀ page, (∀ p, page ≤ p → p < memPages → mem.memPt p = none) → P page [])
    (region : ∀ page start e, page ≤ start → start < memPages → mem.memPt start = some e →
      (∀ p, page ≤ p → p < start → mem.memPt p = none) →
      P (mem.findEnd e start) (mem.mapsFrom (mem.findEnd e start)) →
      P page (⟨start, mem.findEnd e start, e⟩ :: mem.mapsFrom (mem.findEnd e start)))
    (page : ℕ) : P page (mem.mapsFrom page) := by
  obtain ⟨n, hn⟩ : ∃ n, memPages - page = n := ⟨_, rfl⟩
  induction n using Nat.strong_induction_on generalizing page with
  | _ n ih =>
    rcases mem.mapsFrom_cases page with ⟨hnil, hnone⟩ | ⟨start, e, hle, hlt, he, hgap, hcons⟩
    · rw [hnil]
      exact done page hnone
    · rw [hcons]
      have hend := mem.lt_findEnd hlt he
      exact region page start e hle hlt he hgap (ih _ (by omega) _ rfl)

lemma mapsFrom_le_start (mem : PageTable) (page : ℕ) :
    ∀ r ∈ mem.mapsFrom page, page ≤ r.start := by
  refine mapsFrom_induction (P := fun page rs => ∀ r ∈ rs, page ≤ r.start) ?_ ?_ page
  · simp
  · intro page start e hle hlt he _ ih r hr
    rcases List.mem_cons.mp hr with rfl | hr
    · exact hle
    · have hend := mem.lt_findEnd hlt he
      have := ih r hr
      omega

lemma mapsFrom_ascending (mem : PageTable) (page : ℕ) :
    (mem.mapsFrom page).Pairwise fun r r' => r.stop ≤ r'.start := by
  refine mapsFrom_induction (P := fun _ rs => rs.Pairwise fun r r' => r.stop ≤ r'.start) ?_ ?_ page
  · exact fun _ _ => .nil
  · intro page start e _ _ _ _ ih
    exact List.pairwise_cons.mpr ⟨fun r hr => mem.mapsFrom_le_start _ r hr, ih⟩

lemma mapsFrom_nonempty (mem : PageTable) (page : ℕ) :
    ∀ r ∈ mem.mapsFrom page, r.start < r.stop ∧ r.stop ≤ memPages := by
  refine mapsFrom_induction
    (P := fun _ rs => ∀ r ∈ rs, r.start < r.stop ∧ r.stop ≤ memPages) ?_ ?_ page
  · simp
  · intro page start e _ hlt he _ ih r hr
    rcases List.mem_cons.mp hr with rfl | hr
    · exact ⟨mem.lt_findEnd hlt he, mem.findEnd_le e hlt.le⟩
    · exact ih r hr

lemma mapsFrom_listed (mem : PageTable) (page : ℕ) :
    ∀ p, page ≤ p → p < memPages → mem.memPt p ≠ none →
      ∃! r, r ∈ mem.mapsFrom page ∧ r.Has p := by
  refine mapsFrom_induction (P := fun page rs => ∀ p, page ≤ p → p < memPages →
    mem.memPt p ≠ none → ∃! r, r ∈ rs ∧ r.Has p) ?_ ?_ page
  · exact fun page hnone p hp hlt hmapped => absurd (hnone p hp hlt) hmapped
  · intro page start e hle hlt he hgap ih p hp hmem hmapped
    have hstart : start ≤ p := by
      by_contra h
      exact hmapped (hgap p hp (by omega))
    rcases Nat.lt_or_ge p (mem.findEnd e start) with hend | hend
    · refine ⟨_, ⟨List.mem_cons_self, hstart, hend⟩, fun r hr => ?_⟩
      rcases List.mem_cons.mp hr.1 with rfl | hmem'
      · rfl
      · have := mem.mapsFrom_le_start _ r hmem'
        have := hr.2.1
        omega
    · obtain ⟨r, ⟨hr, hhas⟩, huniq⟩ := ih p hend hmem hmapped
      refine ⟨r, ⟨List.mem_cons_of_mem _ hr, hhas⟩, fun r' hr' => ?_⟩
      rcases List.mem_cons.mp hr'.1 with rfl | hmem'
      · exact absurd hr'.2.2 (by simpa using hend)
      · exact huniq r' ⟨hmem', hr'.2⟩

lemma mapsFrom_region (mem : PageTable) (page : ℕ) :
    ∀ r ∈ mem.mapsFrom page, ∀ p e, r.Has p → mem.memPt p = some e →
      mem.memNextPage p ≤ r.stop ∧ e.flags &&& pRwx = r.startPt.flags &&& pRwx := by
  refine mapsFrom_induction (P := fun _ rs => ∀ r ∈ rs, ∀ p e, r.Has p → mem.memPt p = some e →
    mem.memNextPage p ≤ r.stop ∧ e.flags &&& pRwx = r.startPt.flags &&& pRwx) ?_ ?_ page
  · simp
  · intro page start e _ hlt _ _ ih r hr
    rcases List.mem_cons.mp hr with rfl | hr
    · intro p e' hhas he'
      have hmem : p < memPages := hhas.2.trans_le (mem.findEnd_le e hlt.le)
      exact ⟨mem.memNextPage_le_findEnd hhas.1 hhas.2 hmem he',
        mem.findEnd_prot hhas.1 hhas.2 hmem he'⟩
    · exact ih r hr

lemma findEnd_mapped {e : PtEntry} (hstep : ∀ p, p + 1 < memPages → mem.memPt p ≠ none →
    mem.memNextPage p = p + 1) (hp : page ≤ p) (hlt : p < mem.findEnd e page) :
    mem.memPt p ≠ none := by
  induction page using findEnd.induct mem e with
  | case1 page h ih =>
    have hmapped : mem.memPt page ≠ none := by
      intro hnone
      simp [hnone] at h
    rw [findEnd, if_pos h] at hlt
    rcases Nat.eq_or_lt_of_le hp with rfl | hp
    · exact hmapped
    · by_cases hlast : page + 1 < memPages
      · exact ih (by rw [hstep page hlast hmapped]; exact hp) hlt
      · have hnext := mem.memNextPage_le h.1
        have := mem.findEnd_le e hnext
        omega
  | case2 page h =>
    rw [findEnd, if_neg h] at hlt
    omega

lemma mapsFrom_mapped (hstep : ∀ p, p + 1 < memPages → mem.memPt p ≠ none →
    mem.memNextPage p = p + 1) (page : ℕ) :
    ∀ r ∈ mem.mapsFrom page, ∀ p, r.Has p → mem.memPt p ≠ none := by
  refine mapsFrom_induction
    (P := fun _ rs => ∀ r ∈ rs, ∀ p, r.Has p → mem.memPt p ≠ none) ?_ ?_ page
  · simp
  · intro page start e _ _ _ _ ih r hr
    rcases List.mem_cons.mp hr with rfl | hr
    · exact fun p hhas => findEnd_mapped hstep hhas.1 hhas.2
    · exact ih r hr

lemma ArraysAdjoin.memNextPage (h : mem.ArraysAdjoin) (hp : p + 1 < memPages)
    (hmapped : mem.memPt p ≠ none) : mem.memNextPage p = p + 1 := by
  refine (mem.memNextPage_eq_succ_iff hp).mpr ?_
  by_cases hlast : p % 512 = 511
  · rw [show (p + 1) / 512 = p / 512 + 1 by omega]
    exact h p hp hmapped hlast
  · rw [show (p + 1) / 512 = p / 512 by omega]
    rw [mem.memPt_of_lt (by omega)] at hmapped
    obtain ⟨e, he⟩ := Option.ne_none_iff_exists'.mp hmapped
    exact (mem.mapped p e he).2

lemma memNextPage_jumps (hp : p + 1 < memPages) (hnext : mem.memNextPage p ≠ p + 1) :
    p + 1 < mem.memNextPage p ∧ mem.memPt (p + 1) = none := by
  have hlt := mem.lt_memNextPage p
  have hjump : p + 1 < mem.memNextPage p := by omega
  exact ⟨hjump, by rw [mem.memPt_of_lt hp]; exact mem.memNextPage_skips (by omega) hjump hp⟩

end PageTable

open PageTable

lemma not_mapsExact_of_jump {mem : PageTable} {p : ℕ} (hp : p + 1 < memPages)
    (hmapped : mem.memPt p ≠ none) (hnext : mem.memNextPage p ≠ p + 1) :
    ¬ MapsExact mem (procMapsDump (some mem)) := by
  intro h
  obtain ⟨hjump, hnone⟩ := memNextPage_jumps hp hnext
  obtain ⟨e, he⟩ := Option.ne_none_iff_exists'.mp hmapped
  obtain ⟨r, ⟨hr, hhas⟩, -⟩ := h.listed p (by omega) hmapped
  have hstop := (mem.mapsFrom_region 0 r hr p e hhas he).1
  have hstart := hhas.1
  obtain ⟨e', he', -⟩ := h.mapped r hr (p + 1) ⟨by omega, by omega⟩
  rw [hnone] at he'
  cases he'

/-- The listing is exact for the tables whose arrays adjoin, and for no others. -/
theorem procMapsDump_exact_iff (mem : PageTable) :
    MapsExact mem (procMapsDump (some mem)) ↔ mem.ArraysAdjoin := by
  constructor
  · intro h p hp hmapped hlast
    by_contra hmem
    refine not_mapsExact_of_jump hp hmapped (fun hnext => hmem ?_) h
    rw [← show (p + 1) / 512 = p / 512 + 1 by omega]
    exact (mem.memNextPage_eq_succ_iff hp).mp hnext
  · intro h
    exact {
      ascending := mem.mapsFrom_ascending 0
      nonempty := mem.mapsFrom_nonempty 0
      listed := fun p hp hmapped => mem.mapsFrom_listed 0 p (Nat.zero_le p) hp hmapped
      mapped := by
        intro r hr p hhas
        have hmapped := mapsFrom_mapped (fun _ => h.memNextPage) 0 r hr p hhas
        obtain ⟨e, he⟩ := Option.ne_none_iff_exists'.mp hmapped
        exact ⟨e, he, (mem.mapsFrom_region 0 r hr p e hhas he).2⟩ }

def lastOfArray : PageTable := PageTable.empty.memPtNew 511 ⟨0, 0, pWrite ||| pAnonymous⟩

/-- The only region of the table above is printed with the rest of the address space. -/
theorem procMapsDump_exact_fails :
    ¬ ∀ mem : PageTable, MapsExact mem (procMapsDump (some mem)) := by
  intro h
  refine @not_mapsExact_of_jump lastOfArray 511 (by decide) ?_ ?_ (h lastOfArray)
  · simp [lastOfArray, memPt]
  · intro hnext
    have := (lastOfArray.memNextPage_eq_succ_iff (by decide)).mp hnext
    simp [lastOfArray, memPtNew, PageTable.empty, ptIndex, memPages] at this

end ShellBox
