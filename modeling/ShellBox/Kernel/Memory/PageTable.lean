import ShellBox.Kernel.Memory.Basic

/-!
# The four-level page table

Four levels of nine bits index a page, so the walk only sees a page number modulo `2 ^ 36`.
The three upper levels are represented by the list of the allocated arrays of entries, each
named by the 27 upper bits of the pages it covers: a node of an upper level exists exactly
if an array below it does, since nodes are allocated on the way down and never given back.
-/

namespace ShellBox

open Function

/-- The walk of the four `PT_INDEX` levels keeps 36 bits of the page number. -/
def ptIndex (page : ℕ) : ℕ := page % memPages

lemma ptIndex_lt (page : ℕ) : ptIndex page < memPages := Nat.mod_lt _ (by decide)

lemma ptIndex_of_lt {page : ℕ} (h : page < memPages) : ptIndex page = page :=
  Nat.mod_eq_of_lt h

/-- A page table: its entries, and the allocated last-level arrays. Every entry lies in an
allocated array. -/
structure PageTable where
  entry : ℕ → Option PtEntry
  tables : List ℕ
  mapped : ∀ i e, entry i = some e → i < memPages ∧ i / 512 ∈ tables

namespace PageTable

def empty : PageTable where
  entry := fun _ => none
  tables := []
  mapped := by simp

/-- `mem_pt`: the entry of a page, if it is mapped. -/
def memPt (pt : PageTable) (page : ℕ) : Option PtEntry := pt.entry (ptIndex page)

/-- `mem_pt_new` with the entry its caller stores: the nodes on the way are created. -/
def memPtNew (pt : PageTable) (page : ℕ) (e : PtEntry) : PageTable where
  entry := update pt.entry (ptIndex page) (some e)
  tables := pt.tables.insert (ptIndex page / 512)
  mapped := by
    intro i e' h
    by_cases hi : i = ptIndex page
    · subst hi
      exact ⟨ptIndex_lt page, List.mem_insert_self⟩
    · rw [update_of_ne hi] at h
      exact ⟨(pt.mapped i e' h).1, List.mem_insert_of_mem (pt.mapped i e' h).2⟩

/-- A write to the flag word of a mapped entry; an unmapped page has none. -/
def setFlags (pt : PageTable) (page : ℕ) (flags : Flags) : PageTable where
  entry := update pt.entry (ptIndex page) ((pt.memPt page).map ({ · with flags := flags }))
  tables := pt.tables
  mapped := by
    intro i e' h
    by_cases hi : i = ptIndex page
    · subst hi
      rw [update_self, Option.map_eq_some_iff] at h
      obtain ⟨e, he, -⟩ := h
      exact pt.mapped _ e he
    · rw [update_of_ne hi] at h
      exact pt.mapped i e' h

def memPtDel (pt : PageTable) (page : ℕ) : PageTable where
  entry := update pt.entry (ptIndex page) none
  tables := pt.tables
  mapped := by
    intro i e' h
    by_cases hi : i = ptIndex page
    · subst hi; simp at h
    · rw [update_of_ne hi] at h
      exact pt.mapped i e' h

@[simp] lemma empty_entry (i : ℕ) : empty.entry i = none := rfl

@[simp] lemma memPtNew_entry (pt : PageTable) (page : ℕ) (e : PtEntry) :
    (pt.memPtNew page e).entry = update pt.entry (ptIndex page) (some e) := rfl

@[simp] lemma memPtDel_entry (pt : PageTable) (page : ℕ) :
    (pt.memPtDel page).entry = update pt.entry (ptIndex page) none := rfl

@[simp] lemma setFlags_entry (pt : PageTable) (page : ℕ) (flags : Flags) :
    (pt.setFlags page flags).entry = update pt.entry (ptIndex page)
      ((pt.memPt page).map ({ · with flags := flags })) := rfl

@[simp] lemma memPtDel_tables (pt : PageTable) (page : ℕ) :
    (pt.memPtDel page).tables = pt.tables := rfl

lemma memPt_def (pt : PageTable) (page : ℕ) : pt.memPt page = pt.entry (ptIndex page) := rfl

/-! ### Skipping unallocated subtrees -/

def hasL1 (pt : PageTable) (page : ℕ) : Bool := pt.tables.any (· / 2 ^ 18 == page / 2 ^ 27)

def hasL2 (pt : PageTable) (page : ℕ) : Bool := pt.tables.any (· / 2 ^ 9 == page / 2 ^ 18)

def hasL3 (pt : PageTable) (page : ℕ) : Bool := pt.tables.any (· == page / 2 ^ 9)

/-- The loop of `mem_next_page`: skip the whole subtree below a missing node. -/
def skipUnallocated (pt : PageTable) : ℕ → ℕ → ℕ
  | 0, page => page
  | fuel + 1, page =>
    if memPages ≤ page then page
    else if !pt.hasL1 page then pt.skipUnallocated fuel ((page / 2 ^ 27 + 1) * 2 ^ 27)
    else if !pt.hasL2 page then pt.skipUnallocated fuel ((page / 2 ^ 18 + 1) * 2 ^ 18)
    else if !pt.hasL3 page then pt.skipUnallocated fuel ((page / 2 ^ 9 + 1) * 2 ^ 9)
    else page

/-- `mem_next_page`. Each round of the loop advances, so `memPages` rounds are enough. -/
def memNextPage (pt : PageTable) (page : ℕ) : ℕ := pt.skipUnallocated memPages (page + 1)

lemma hasL_of_mapped (pt : PageTable) {p : ℕ} {e : PtEntry} (h : pt.entry p = some e) :
    pt.hasL1 p = true ∧ pt.hasL2 p = true ∧ pt.hasL3 p = true := by
  obtain ⟨-, hmem⟩ := pt.mapped p e h
  simp only [hasL1, hasL2, hasL3, List.any_eq_true, beq_iff_eq]
  exact ⟨⟨_, hmem, by omega⟩, ⟨_, hmem, by omega⟩, ⟨_, hmem, by omega⟩⟩

lemma skipUnallocated_spec (pt : PageTable) (fuel page : ℕ) :
    page ≤ pt.skipUnallocated fuel page ∧
      ∀ p, page ≤ p → p < pt.skipUnallocated fuel page → p < memPages → pt.entry p = none := by
  induction fuel generalizing page with
  | zero => exact ⟨le_rfl, fun p h h' => absurd h' (by simp only [skipUnallocated]; omega)⟩
  | succ fuel ih =>
    -- one skipped subtree: `hsub` says that none of its pages is mapped
    have skip : ∀ next, page ≤ next → (∀ p, page ≤ p → p < next → pt.entry p = none) →
        page ≤ pt.skipUnallocated fuel next ∧ ∀ p, page ≤ p →
          p < pt.skipUnallocated fuel next → p < memPages → pt.entry p = none := by
      intro next hle hsub
      obtain ⟨hge, hnone⟩ := ih next
      refine ⟨Nat.le_trans hle hge, fun p hp hlt hmem => ?_⟩
      by_cases hpn : p < next
      · exact hsub p hp hpn
      · exact hnone p (by omega) hlt hmem
    have stop : page ≤ page ∧
        ∀ p, page ≤ p → p < page → p < memPages → pt.entry p = none :=
      ⟨le_rfl, fun p hp hlt _ => absurd hlt (by omega)⟩
    simp only [skipUnallocated]
    split_ifs with hend h1 h2 h3
    · exact stop
    · refine skip _ (by omega) fun p hp hlt => Option.eq_none_iff_forall_ne_some.mpr ?_
      intro e he
      have hnode : pt.hasL1 page = true := by
        rw [hasL1, ← show p / 2 ^ 27 = page / 2 ^ 27 by omega]
        exact (pt.hasL_of_mapped he).1
      exact absurd (h1.symm.trans (congrArg not hnode)) (by decide)
    · refine skip _ (by omega) fun p hp hlt => Option.eq_none_iff_forall_ne_some.mpr ?_
      intro e he
      have hnode : pt.hasL2 page = true := by
        rw [hasL2, ← show p / 2 ^ 18 = page / 2 ^ 18 by omega]
        exact (pt.hasL_of_mapped he).2.1
      exact absurd (h2.symm.trans (congrArg not hnode)) (by decide)
    · refine skip _ (by omega) fun p hp hlt => Option.eq_none_iff_forall_ne_some.mpr ?_
      intro e he
      have hnode : pt.hasL3 page = true := by
        rw [hasL3, ← show p / 2 ^ 9 = page / 2 ^ 9 by omega]
        exact (pt.hasL_of_mapped he).2.2
      exact absurd (h3.symm.trans (congrArg not hnode)) (by decide)
    · exact stop

lemma lt_memNextPage (pt : PageTable) (page : ℕ) : page < pt.memNextPage page :=
  (pt.skipUnallocated_spec memPages (page + 1)).1

lemma memNextPage_skips (pt : PageTable) {page p : ℕ} (hp : page < p)
    (hlt : p < pt.memNextPage page) (hmem : p < memPages) : pt.entry p = none :=
  (pt.skipUnallocated_spec memPages (page + 1)).2 p hp hlt hmem

/-- The search of the stack-growth path: the next mapped page above `page`, if any. -/
def nextMapped (pt : PageTable) : ℕ → ℕ → Option ℕ
  | 0, _ => none
  | fuel + 1, p =>
    if memPages ≤ p then none
    else if (pt.memPt p).isSome then some p
    else pt.nextMapped fuel (pt.memNextPage p)

lemma nextMapped_spec (pt : PageTable) {fuel p q : ℕ} (h : pt.nextMapped fuel p = some q) :
    p ≤ q ∧ q < memPages ∧ ∀ r, p ≤ r → r < q → pt.entry r = none := by
  induction fuel generalizing p with
  | zero => simp [nextMapped] at h
  | succ fuel ih =>
    unfold nextMapped at h
    split_ifs at h with hend hmapped
    · obtain rfl : p = q := Option.some.inj h
      exact ⟨le_rfl, by omega, fun r hle hlt => absurd hlt (by omega)⟩
    · obtain ⟨hle, hmem, hnone⟩ := ih h
      have hlt := pt.lt_memNextPage p
      refine ⟨by omega, hmem, fun r hpr hrq => ?_⟩
      rcases Nat.lt_or_ge r (pt.memNextPage p) with hr | hr
      · rcases Nat.eq_or_lt_of_le hpr with rfl | hpr'
        · simpa [memPt, ptIndex_of_lt (show p < memPages by omega)] using hmapped
        · exact pt.memNextPage_skips hpr' hr (by omega)
      · exact hnone r hr hrq

lemma nextMapped_isSome (pt : PageTable) {fuel p q : ℕ} (h : pt.nextMapped fuel p = some q) :
    (pt.memPt q).isSome = true := by
  induction fuel generalizing p with
  | zero => simp [nextMapped] at h
  | succ fuel ih =>
    unfold nextMapped at h
    split_ifs at h with hend hmapped
    · obtain rfl : p = q := Option.some.inj h
      exact hmapped
    · exact ih h

lemma nextMapped_gap (pt : PageTable) {fuel page p : ℕ} (hempty : pt.memPt page = none)
    (hnext : pt.nextMapped fuel (pt.memNextPage page) = some p) :
    page < p ∧ p < memPages ∧ ∀ q, page ≤ q → q < p → pt.entry q = none := by
  obtain ⟨hle, hmem, hnone⟩ := pt.nextMapped_spec hnext
  have hlt := pt.lt_memNextPage page
  refine ⟨lt_of_lt_of_le hlt hle, hmem, fun q hpq hqp => ?_⟩
  rcases Nat.eq_or_lt_of_le hpq with rfl | hpq'
  · rwa [memPt, ptIndex_of_lt (hqp.trans hmem)] at hempty
  · rcases Nat.lt_or_ge q (pt.memNextPage page) with hq | hq
    · exact pt.memNextPage_skips hpq' hq (hqp.trans hmem)
    · exact hnone q hq hqp

lemma nextMapped_none (pt : PageTable) {fuel p : ℕ} (hfuel : memPages ≤ p + fuel)
    (h : pt.nextMapped fuel p = none) : ∀ r, p ≤ r → r < memPages → pt.entry r = none := by
  induction fuel generalizing p with
  | zero => exact fun r hle hlt => absurd hlt (by omega)
  | succ fuel ih =>
    intro r hle hlt
    unfold nextMapped at h
    split_ifs at h with hend hmapped
    · omega
    · have hnext := pt.lt_memNextPage p
      rcases Nat.lt_or_ge r (pt.memNextPage p) with hr | hr
      · rcases Nat.eq_or_lt_of_le hle with rfl | hpr
        · simpa [memPt, ptIndex_of_lt hlt] using hmapped
        · exact pt.memNextPage_skips hpr hr hlt
      · exact ih (by omega) h r hr hlt

end PageTable

end ShellBox
