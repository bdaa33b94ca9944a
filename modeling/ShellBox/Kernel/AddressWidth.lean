import ShellBox.Kernel.Accounting
import ShellBox.Kernel.UserCopy

/-!
# Addresses beyond the page table

A guest address has 64 bits and a page number 52, but the page table looks at 36 bits of it. A
call that takes a range checks neither end of it against the table, so the pages behind the
table are looked up as the pages that share their low bits.
-/

namespace ShellBox

open Function World

/-! ### `madvise` -/

/-- One round of the loop for `MADV_DONTNEED`: the page is set to zero, unless it is not mapped or
belongs to a file. -/
def dontneedPage (h : Host) (fileBacked : DataId → Bool) (s p : ℕ) (st : World × Bool) :
    World × Bool :=
  match (st.1.mem s).pt.memPt (page p) with
  | none => st
  | some e =>
    if !e.flags.anonymous && fileBacked e.data then st
    else
      match memPtr h s p .write st.1 with
      | (w, none) => (w, st.2)
      | (w, some ptr) => (w.storeBytes ptr (List.replicate pageSize 0), true)

/-- The loop, in 64-bit arithmetic: it does not end if it steps over the last address. -/
def dontneedLoop (h : Host) (fileBacked : DataId → Bool) (s stop : ℕ) :
    ℕ → ℕ → World × Bool → Option (World × Bool)
  | 0, p, st => if p < stop then none else some st
  | fuel + 1, p, st =>
    if p < stop then
      dontneedLoop h fileBacked s stop fuel ((p + pageSize) % 2 ^ 64)
        (dontneedPage h fileBacked s p st)
    else some st

/-- `PAGE_ROUND_UP` of a length of 32 bits, which overflows to zero. -/
def pageRoundUpDword (len : BitVec 32) : ℕ := page (len + (4096 - 1)).toNat

/-- `sys_madvise`. `noDontneed` is the setting `ISH_NO_DONTNEED`, and `none` a call that does not
return. -/
def sysMadvise (h : Host) (fileBacked : DataId → Bool) (noDontneed : Bool) (s addr : ℕ)
    (len advice : BitVec 32) (w : World) : World × Option (Except Errno ℕ) :=
  if pgoffset addr ≠ 0 then (w, some (.error .einval))
  else if !allPages (fun page => isMapped w s page ||
      (memFindReservation (w.mem s).reservations page).isSome) (page addr)
      (pageRoundUpDword len) then (w, some (.error .enomem))
  else if advice = 8 then (w, some (.ok 0))
  else if noDontneed && advice = 4 then (w, some (.ok 0))
  else if advice = 4 then
    match dontneedLoop h fileBacked s ((addr + len.toNat) % 2 ^ 64) (pageRoundUp len.toNat) addr
        (w, false) with
    | none => (w, none)
    | some (w, any) => (if any then w.memChanged s else w, some (.ok 0))
  else (w, some (.ok 0))

/-! ### The operations on a range -/

inductive RangeOp where
  | munmap (addr len : BitVec 64)
  | mprotect (addr len : BitVec 64) (prot : ℕ)
  | madvise (fileBacked : DataId → Bool) (noDontneed : Bool) (addr : BitVec 64)
      (len advice : BitVec 32)
  | mremap (addr : BitVec 64) (oldLen newLen : BitVec 32)
  | access (addr : BitVec 64) (type : AccessType)

namespace RangeOp

/-- The state afterwards, and whether the operation has succeeded; `none` if it does not
return. -/
def run (h : Host) (s : ℕ) (w : World) : RangeOp → World × Option Bool
  | munmap addr len =>
    let r := sysMunmap h s addr.toNat len.toNat w
    (r.1, some r.2.isOk)
  | mprotect addr len prot =>
    let r := sysMprotect h s addr.toNat len.toNat prot w
    (r.1, some r.2.isOk)
  | madvise fileBacked noDontneed addr len advice =>
    let r := sysMadvise h fileBacked noDontneed s addr.toNat len advice w
    (r.1, r.2.map (·.isOk))
  | mremap addr oldLen newLen =>
    let r := sysMremap h s addr.toNat oldLen newLen w
    (r.1, r.2.map (·.isOk))
  | access addr type =>
    let r := memPtr h s addr.toNat type w
    (r.1, some r.2.isSome)

def start : RangeOp → ℕ
  | munmap addr _ => page addr.toNat
  | mprotect addr _ _ => page addr.toNat
  | madvise _ _ addr _ _ => page addr.toNat
  | mremap addr oldLen newLen =>
    if page newLen.toNat ≤ page oldLen.toNat then page addr.toNat + page newLen.toNat
    else page addr.toNat
  | access addr _ => page addr.toNat

/-- How many pages it is about. A mapping that shrinks is about the pages it gives up. -/
def pages : RangeOp → ℕ
  | munmap _ len => pageRoundUp len.toNat
  | mprotect _ len _ => pageRoundUp len.toNat
  | madvise _ _ _ len _ => pageRoundUp len.toNat
  | mremap _ oldLen newLen =>
    if page newLen.toNat ≤ page oldLen.toNat then page oldLen.toNat - page newLen.toNat
    else page newLen.toNat
  | access .. => 1

def range (op : RangeOp) : Set ℕ := {q | op.start ≤ q ∧ q < op.start + op.pages}

/-- The entries the operation may change: those of its range, and for an access the pages that a
stack grows by, from the page of the access up to the next mapped page. -/
def mayChange (s : ℕ) (w : World) (op : RangeOp) : Set (ℕ × ℕ) :=
  {k | k.1 = s ∧ (k.2 ∈ op.range ∨
    match op with
    | access addr _ => page addr.toNat ≤ k.2 ∧
        ∀ q, page addr.toNat ≤ q → q ≤ k.2 → w.slot (s, q) = none
    | _ => False)}

def refusesUnmapped : RangeOp → Bool
  | munmap .. => false
  | _ => true

/-- The operation changes entries of its range only, and pages beyond the table are treated as
unmapped. -/
structure Confined (h : Host) (s : ℕ) (w : World) (op : RangeOp) : Prop where
  slot : ∀ k, k ∉ op.mayChange s w → (op.run h s w).1.slot k = w.slot k
  refused : op.refusesUnmapped = true → (∃ q ∈ op.range, memPages ≤ q) →
    (op.run h s w).2 = some false

def argsOk : RangeOp → Prop
  | munmap addr len => pgoffset addr.toNat = 0 ∧ len.toNat ≠ 0
  | mprotect addr _ prot => pgoffset addr.toNat = 0 ∧ prot < 8
  | madvise _ _ addr _ _ => pgoffset addr.toNat = 0
  | mremap addr oldLen _ => pgoffset addr.toNat = 0 ∧ page oldLen.toNat ≠ 0
  | access .. => True

/-- The operation reaches a page beyond the table; for `munmap`, one that is looked up as a page
outside the range. -/
def Aliases (op : RangeOp) : Prop :=
  op.argsOk ∧ ∃ q ∈ op.range, memPages ≤ q ∧ (op.refusesUnmapped = false → ptIndex q ∉ op.range)

end RangeOp

/-! ### Which entries change -/

def World.SlotsOutside (K : Set (ℕ × ℕ)) (w w' : World) : Prop := ∀ k, k ∉ K → w'.slot k = w.slot k

namespace World.SlotsOutside

variable {K K' : Set (ℕ × ℕ)} {w w' w'' : World}

lemma refl (K : Set (ℕ × ℕ)) (w : World) : w.SlotsOutside K w := fun _ _ => rfl

lemma trans (h : w.SlotsOutside K w') (h' : w'.SlotsOutside K w'') : w.SlotsOutside K w'' :=
  fun k hk => (h' k hk).trans (h k hk)

lemma mono (h : w.SlotsOutside K w') (hK : K ⊆ K') : w.SlotsOutside K' w' :=
  fun k hk => h k fun hmem => hk (hK hmem)

end World.SlotsOutside

variable {w w' : World} {h : Host} {s start pages page q : ℕ} {K : Set (ℕ × ℕ)}

lemma ptUnmapAlways_exit {P : ℕ → World → Prop} (h : Host)
    (hframe : ∀ i w₁ w₂, w₂.slot = w₁.slot → P i w₁ → P i w₂)
    (hstep : ∀ i w', i < start + pages → P i w' →
      P ((unmapPage s i w').mem s |>.pt.memNextPage i) (unmapPage s i w'))
    (hstart : P start w) :
    ∃ j, start + pages ≤ j ∧ P j (ptUnmapAlways h s start pages w) := by
  obtain ⟨w₁, hslot, heq⟩ : ∃ w₁ : World, w₁.slot = w.slot ∧ ptUnmapAlways h s start pages w =
      (forLoop (fun w page => (w.mem s).pt.memNextPage page) (unmapPage s) (start + pages)
        pages start w₁).memChanged s := by
    refine ⟨_, setMem_slot _ _ _ ?_, rfl⟩
    rfl
  obtain ⟨j, hj, hP⟩ := forLoop_exit (fun w page => (w.mem s).pt.memNextPage page) (unmapPage s)
    (start + pages) (fun w' i => (w'.mem s).pt.lt_memNextPage i) hstep pages start le_rfl
    (hframe start w w₁ hslot hstart)
  rw [heq]
  exact ⟨j, hj, hframe j _ _ (memChanged_slot _ _) hP⟩

lemma slotsOutside_ptUnmapAlways (h : Host) (s start pages : ℕ) (w : World) :
    w.SlotsOutside (pageSlots s start (start + pages)) (ptUnmapAlways h s start pages w) := by
  obtain ⟨j, -, -, hout⟩ := @ptUnmapAlways_exit w s start pages
    (fun i w' => start ≤ i ∧ w.SlotsOutside (pageSlots s start (start + pages)) w') h
    (fun i w₁ w₂ hslot ⟨hle, hout⟩ => ⟨hle, fun k hk => hslot ▸ hout k hk⟩)
    (fun i w' hi ⟨hle, hout⟩ => by
      refine ⟨hle.trans (PageTable.lt_memNextPage _ i).le, fun k hk => ?_⟩
      rw [unmapPage_slot, update_of_ne, hout k hk]
      rintro rfl
      exact hk (mem_pageSlots hle hi))
    ⟨le_rfl, .refl _ w⟩
  exact hout

lemma memNextPage_beyond (pt : PageTable) {i p : ℕ} (hlt : i < p) (hnext : p < pt.memNextPage i) :
    p < memPages := by
  have hskip (fuel i : ℕ) : pt.skipUnallocated fuel i ≤ max i memPages := by
    induction fuel generalizing i with
    | zero => exact le_max_left _ _
    | succ fuel ih =>
      unfold PageTable.skipUnallocated
      have hmem : memPages = 2 ^ 36 := rfl
      split_ifs with hend
      · exact le_max_left _ _
      all_goals first | exact le_max_left _ _ | exact (ih _).trans (by omega)
  have := hskip memPages (i + 1)
  rw [PageTable.memNextPage] at hnext
  omega

lemma ptUnmapAlways_slot_none (h : Host) (s : ℕ) (w : World) (hle : start ≤ q)
    (hlt : q < start + pages) : (ptUnmapAlways h s start pages w).slot (s, ptIndex q) = none := by
  obtain ⟨j, hj, hnone⟩ := @ptUnmapAlways_exit w s start pages
    (fun i w' => ∀ p, start ≤ p → p < i → w'.slot (s, ptIndex p) = none) h
    (fun i w₁ w₂ hslot hnone p hp hpi => hslot ▸ hnone p hp hpi)
    (fun i w' hi hnone p hp hpi => by
      rcases lt_trichotomy p i with hpi' | rfl | hpi'
      · rw [unmapPage_slot]
        by_cases hk : (s, ptIndex p) = (s, ptIndex i)
        · rw [hk, update_self]
        · rw [update_of_ne hk]
          exact hnone p hp hpi'
      · rw [unmapPage_slot, update_self]
      · have hmem := memNextPage_beyond _ hpi' hpi
        rw [ptIndex_of_lt hmem]
        exact PageTable.memNextPage_skips _ hpi' hpi hmem)
    (fun p hp hps => absurd hps (Nat.not_lt.mpr hp))
  exact hnone q hle (hlt.trans_le hj)

lemma ptMapNothing_slots (flags : Flags) (hb : w.Balanced) :
    w.SlotsOutside (pageSlots s start (start + pages)) (ptMapNothing h s start pages flags w).1 ∧
      (pages ≤ memPages → h.Grants start → ∀ q, start ≤ q → q < start + pages → ∃ e,
        (ptMapNothing h s start pages flags w).1.slot (s, ptIndex q) = some e ∧
          e.flags = flags ||| pAnonymous) := by
  unfold ptMapNothing
  split_ifs with hzero hok
  · exact ⟨.refl _ w, fun _ _ q hle hlt => absurd hlt (by omega)⟩
  · by_cases hdata : h.dataOk start = true
    · obtain ⟨w', heq, hloop⟩ := ptMap_ok (S := anyScope) (s := s) (fun _ => 0) 0
        (flags ||| pAnonymous) hb hok.2 hdata (fun _ _ _ => mayReplace_any w _) (Or.inr trivial)
      rw [heq]
      refine ⟨fun k hk => hloop.outside k ?_, fun _ _ q hle hlt => ⟨_, hloop.inside q hle hlt, rfl⟩⟩
      rintro q hle hlt rfl
      exact hk (mem_pageSlots hle hlt)
    · rw [ptMap]
      simp only [hdata]
      exact ⟨.refl _ w, fun _ hg => absurd hg.2 hdata⟩
  · exact ⟨.refl _ w, fun hpages hg => absurd ⟨hg.1, hpages⟩ hok⟩

/-! ### Which entries an access changes -/

lemma clearCode_slots (f : Flags) (w : World) :
    w.SlotsOutside {(s, ptIndex page)} (clearCode s page f w) := by
  intro k hk
  have hk' : k ≠ (s, ptIndex page) := hk
  unfold clearCode
  split_ifs
  · rw [memChanged_slot, setFlags_slot, update_of_ne hk']
  · rw [setFlags_slot, update_of_ne hk']

lemma clearCode_slot_self {e : PtEntry} {f : Flags} (he : w.slot (s, ptIndex page) = some e) :
    ∃ e', (clearCode s page f w).slot (s, ptIndex page) = some e' := by
  unfold clearCode
  split_ifs
  · exact ⟨_, by rw [memChanged_slot, setFlags_slot, update_self, he, Option.map_some]⟩
  · exact ⟨_, by rw [setFlags_slot, update_self, he, Option.map_some]⟩

lemma prepareWrite_slots (ptrace : Bool) (hb : w.Balanced) :
    w.SlotsOutside {(s, ptIndex page)} (prepareWrite h s page ptrace w).1 ∧
      (w.slot (s, ptIndex page) ≠ none →
        (prepareWrite h s page ptrace w).1.slot (s, ptIndex page) ≠ none) := by
  unfold prepareWrite
  rw [memPt_eq_slot]
  cases he : w.slot (s, ptIndex page) with
  | none => exact ⟨.refl _ w, fun hne => absurd rfl hne⟩
  | some e =>
    simp only
    by_cases hdeny : (!ptrace && !e.flags.write) = true
    · rw [if_pos hdeny]
      exact ⟨.refl _ w, fun _ => by simp [he]⟩
    rw [if_neg hdeny]
    have hclear : Steps anyScope 0 w (clearCode s page
        (if ptrace = true then e.flags ||| (pWrite ||| pCow) else e.flags) w) := by
      refine steps_clearCode he ?_ ?_ ?_ fun _ _ => ⟨Set.mem_univ _, trivial⟩
      · split_ifs <;> simp [pWrite, pCow]
      · split_ifs <;> simp [pWrite, pCow]
      · intro hc
        split_ifs <;> simp [hc]
    generalize (if ptrace = true then e.flags ||| (pWrite ||| pCow) else e.flags) = f at hclear
    obtain ⟨e', he'⟩ := clearCode_slot_self (f := f) he
    have hcopy := copyForWrite_slot (h := h) (hclear.balanced hb) he'
    refine ⟨(clearCode_slots f w).trans fun k hk => ?_, fun _ => ?_⟩
    · rw [hcopy]
      split_ifs
      · exact update_of_ne hk _ _
      · rfl
    · rw [hcopy]
      split_ifs
      · simp
      · simp [he']

/-- What an access without an entry may fill: its own page, or the gap below a stack. -/
def accessSlots (w : World) (s page : ℕ) : Set (ℕ × ℕ) :=
  {k | k.1 = s ∧ (k.2 = page ∨ page ≤ k.2 ∧ ∀ q, page ≤ q → q ≤ k.2 → w.slot (s, q) = none)}

lemma balanced_faultIn (h : Host) (s page : ℕ) (hb : w.Balanced) :
    (faultIn h s page w).1.Balanced := by
  obtain ⟨n, hs, -⟩ : ∃ n, Steps anyScope n w (faultIn h s page w).1 ∧
      (isMapped w s page = true ∨ h.Grants page → n = 0) := steps_faultIn hb
  exact hs.balanced hb

lemma faultIn_slots (hb : w.Balanced) (hlt : page < memPages) :
    w.SlotsOutside (accessSlots w s page) (faultIn h s page w).1 := by
  have hreserved : w.SlotsOutside (accessSlots w s page) (mapReserved h s page w).1 := by
    unfold mapReserved
    cases memFindReservation (w.mem s).reservations page with
    | none => exact .refl _ w
    | some res =>
      refine (ptMapNothing_slots (w := w.addAnon 1) _ hb).1.mono ?_
      rintro ⟨t, i⟩ ⟨rfl, q, hle, hq, rfl⟩
      obtain rfl : q = page := le_antisymm (Nat.lt_succ_iff.mp hq) hle
      exact ⟨rfl, Or.inl (ptIndex_of_lt hlt)⟩
  unfold faultIn
  simp only
  cases hempty : (w.mem s).pt.memPt page with
  | some e => exact .refl _ w
  | none =>
    simp only
    cases hnext : (w.mem s).pt.nextMapped memPages ((w.mem s).pt.memNextPage page) with
    | none => exact hreserved
    | some p =>
      obtain ⟨hpage, hmem, hgap⟩ := PageTable.nextMapped_gap _ hempty hnext
      simp only
      split_ifs
      · -- the stack grows by pages of the gap
        unfold growStack
        simp only
        have hend : page + ((if 256 < p - page then page + 256 else p) - page) ≤ p := by
          split_ifs <;> omega
        generalize (if 256 < p - page then page + 256 else p) - page = count at hend ⊢
        refine (ptMapNothing_slots (w := w.addAnon count) _ hb).1.mono ?_
        rintro ⟨t, i⟩ ⟨rfl, q, hle, hq, rfl⟩
        rw [ptIndex_of_lt (by omega)]
        exact ⟨rfl, Or.inr ⟨hle, fun q' hle' hq' => hgap q' hle' (by omega)⟩⟩
      · exact .refl _ w
      · exact hreserved

lemma memPtr_slots {addr : ℕ} {type : AccessType} (hb : w.Balanced)
    (hfault : w.SlotsOutside K (faultIn h s (ShellBox.page addr) w).1)
    (hself : (s, ptIndex (ShellBox.page addr)) ∈ K) :
    w.SlotsOutside K (memPtr h s addr type w).1 := by
  have hb' := balanced_faultIn h s (ShellBox.page addr) hb
  unfold memPtr
  generalize faultIn h s (ShellBox.page addr) w = r at hfault hb'
  obtain ⟨w₁, ok⟩ := r
  cases ok with
  | false => exact hfault
  | true =>
    simp only
    split_ifs
    · exact hfault
    · have hprep := (@prepareWrite_slots w₁ h s (ShellBox.page addr)
        (decide (type = .writePtrace)) hb').1
      generalize prepareWrite h s (ShellBox.page addr) (decide (type = .writePtrace)) w₁ = r
        at hprep
      obtain ⟨w₂, ok⟩ := r
      have hboth := hfault.trans (hprep.mono (Set.singleton_subset_iff.mpr hself))
      cases ok <;> exact hboth

/-! ### Which entries `madvise` changes -/

lemma dontneedPage_slots {fileBacked : DataId → Bool} {p : ℕ} {st : World × Bool}
    (hv : st.1.Valid) :
    st.1.SlotsOutside {(s, ptIndex (ShellBox.page p))} (dontneedPage h fileBacked s p st).1 ∧
      (dontneedPage h fileBacked s p st).1.Valid := by
  unfold dontneedPage
  generalize List.replicate pageSize (0 : UInt8) = zeros
  cases he : (st.1.mem s).pt.memPt (ShellBox.page p) with
  | none => exact ⟨.refl _ _, hv⟩
  | some e =>
    simp only
    split_ifs
    · exact ⟨.refl _ _, hv⟩
    · rw [memPt_eq_slot] at he
      have hslots : st.1.SlotsOutside {(s, ptIndex (ShellBox.page p))}
          (memPtr h s p .write st.1).1 := by
        refine memPtr_slots hv.balanced ?_ rfl
        rw [faultIn_mapped he]
        exact .refl _ _
      have hvalid := valid_memPtr h s p .write hv
      generalize memPtr h s p .write st.1 = r at hslots hvalid
      obtain ⟨w₁, ptr⟩ := r
      cases ptr with
      | none => exact ⟨hslots, hvalid⟩
      | some ptr =>
        refine ⟨fun k hk => ?_, valid_storeBytes ptr zeros hvalid⟩
        rw [storeBytes_slot]
        exact hslots k hk

lemma dontneedLoop_slots {fileBacked : DataId → Bool} {stop fuel p : ℕ} {st st' : World × Bool}
    (hv : st.1.Valid) (hfit : fuel = 0 ∨ ShellBox.page p + fuel ≤ memPages)
    (hloop : dontneedLoop h fileBacked s stop fuel p st = some st') :
    st.1.SlotsOutside (pageSlots s (ShellBox.page p) (ShellBox.page p + fuel)) st'.1 := by
  induction fuel generalizing p st with
  | zero =>
    unfold dontneedLoop at hloop
    split_ifs at hloop
    obtain rfl := Option.some.inj hloop
    exact .refl _ _
  | succ fuel ih =>
    unfold dontneedLoop at hloop
    split_ifs at hloop with hlt
    · have hfit' := hfit.resolve_left (Nat.succ_ne_zero fuel)
      have hmem : memPages = 2 ^ 36 := rfl
      have hp : (p + pageSize) % 2 ^ 64 = p + pageSize := by
        refine Nat.mod_eq_of_lt ?_
        simp only [ShellBox.page, pageSize] at hfit' ⊢
        omega
      have hnext : ShellBox.page (p + pageSize) = ShellBox.page p + 1 := by
        simp only [ShellBox.page, pageSize]
        omega
      rw [hp] at hloop
      obtain ⟨hpage, hvalid⟩ := dontneedPage_slots (h := h) (s := s) (p := p) hv
      have hrest := ih hvalid (Or.inr (by rw [hnext]; omega)) hloop
      rw [hnext] at hrest
      refine (hpage.mono ?_).trans (hrest.mono (pageSlots_mono (Nat.le_succ _) (by omega)))
      exact Set.singleton_subset_iff.mpr (mem_pageSlots le_rfl (by omega))
    · obtain rfl := Option.some.inj hloop
      exact .refl _ _

lemma sysMadvise_slots {fileBacked : DataId → Bool} {noDontneed : Bool} {addr : ℕ}
    {len advice : BitVec 32} (hv : w.Valid)
    (hfit : pageRoundUp len.toNat = 0 ∨ ShellBox.page addr + pageRoundUp len.toNat ≤ memPages) :
    w.SlotsOutside (pageSlots s (ShellBox.page addr)
        (ShellBox.page addr + pageRoundUp len.toNat))
      (sysMadvise h fileBacked noDontneed s addr len advice w).1 := by
  unfold sysMadvise
  split_ifs
  · exact .refl _ w
  · exact .refl _ w
  · exact .refl _ w
  · exact .refl _ w
  · cases hloop : dontneedLoop h fileBacked s ((addr + len.toNat) % 2 ^ 64)
        (pageRoundUp len.toNat) addr (w, false) with
    | none => exact .refl _ w
    | some st =>
      have hslots := @dontneedLoop_slots h s fileBacked _ _ addr (w, false) st hv hfit hloop
      obtain ⟨w₁, any⟩ := st
      cases any
      · exact hslots
      · intro k hk
        simp only [if_true, memChanged_slot]
        exact hslots k hk
  · exact .refl _ w

/-! ### Operations within the table -/

lemma sysMremap_slots {addr : BitVec 64} {oldLen newLen : BitVec 32} (hb : w.Balanced) :
    w.SlotsOutside (pageSlots s (RangeOp.mremap addr oldLen newLen).start
        ((RangeOp.mremap addr oldLen newLen).start + (RangeOp.mremap addr oldLen newLen).pages))
      (sysMremap h s addr.toNat oldLen newLen w).1 := by
  simp only [RangeOp.start, RangeOp.pages, sysMremap]
  by_cases haddr : pgoffset addr.toNat ≠ 0
  · rw [if_pos haddr]
    exact .refl _ w
  rw [if_neg haddr]
  by_cases hle : ShellBox.page newLen.toNat ≤ ShellBox.page oldLen.toNat
  · simp only [if_pos hle]
    unfold ptUnmap
    split_ifs
    · exact slotsOutside_ptUnmapAlways h s _ _ w
    · exact .refl _ w
  · simp only [if_neg hle]
    cases (w.mem s).pt.memPt (ShellBox.page addr.toNat) with
    | none => exact .refl _ w
    | some e =>
      simp only
      split_ifs
      · exact .refl _ w
      · exact .refl _ w
      · exact .refl _ w
      · have hslots := (@ptMapNothing_slots w h s
          (ShellBox.page addr.toNat + ShellBox.page oldLen.toNat)
          (ShellBox.page newLen.toNat - ShellBox.page oldLen.toNat) e.flags hb).1.mono
          (pageSlots_mono (Nat.le_add_right (ShellBox.page addr.toNat) _)
            (show _ ≤ ShellBox.page addr.toNat + ShellBox.page newLen.toNat by omega))
        generalize ptMapNothing h s _ _ e.flags w = r at hslots
        obtain ⟨w₁, res⟩ := r
        cases res <;> exact hslots

lemma sysMremap_no_pages {addr : BitVec 64} {oldLen newLen : BitVec 32}
    (hold : ShellBox.page oldLen.toNat = 0) (hnew : 0 < ShellBox.page newLen.toNat) :
    ∃ e, sysMremap h s addr.toNat oldLen newLen w = (w, some (.error e)) := by
  unfold sysMremap
  by_cases haddr : pgoffset addr.toNat ≠ 0
  · exact ⟨_, if_pos haddr⟩
  rw [if_neg haddr]
  simp only [hold, Nat.le_zero, hnew.ne', if_false, Nat.add_zero, Nat.sub_zero, allPages]
  cases he : (w.mem s).pt.memPt (ShellBox.page addr.toNat) with
  | none => exact ⟨_, rfl⟩
  | some e =>
    -- the first page to be added is the one that is mapped
    have hhole : ptIsHole w s (ShellBox.page addr.toNat) (ShellBox.page newLen.toNat) = false := by
      rw [ptIsHole, Bool.and_eq_false_iff, ← Bool.not_eq_true, allPages_iff]
      refine Or.inl fun hall => ?_
      have hfirst := hall _ le_rfl (Nat.lt_add_of_pos_right hnew)
      rw [isMapped, he] at hfirst
      cases hfirst
    simp only [hhole, Bool.not_true, Bool.not_false, Bool.false_eq_true, if_false, if_true]
    split_ifs <;> exact ⟨_, rfl⟩

namespace RangeOp

variable {op : RangeOp}

lemma pageSlots_subset (hin : ∀ q ∈ op.range, memPages ≤ q → ptIndex q ∈ op.range) :
    pageSlots s op.start (op.start + op.pages) ⊆ op.mayChange s w := by
  rintro ⟨t, i⟩ ⟨rfl, q, hle, hlt, rfl⟩
  refine ⟨rfl, Or.inl ?_⟩
  rcases lt_or_ge q memPages with hmem | hmem
  · rw [ptIndex_of_lt hmem]
    exact ⟨hle, hlt⟩
  · exact hin q ⟨hle, hlt⟩ hmem

lemma in_table (hno : ¬ op.Aliases) (hargs : op.argsOk) (hop : op.refusesUnmapped = true) :
    ∀ q ∈ op.range, q < memPages := by
  intro q hq
  by_contra hmem
  refine hno ⟨hargs, q, hq, Nat.le_of_not_lt hmem, fun hfalse => ?_⟩
  rw [hop] at hfalse
  cases hfalse

lemma Confined.of_slots (hslots : w.SlotsOutside (pageSlots s op.start (op.start + op.pages))
      (op.run h s w).1) (hin : ∀ q ∈ op.range, q < memPages) : op.Confined h s w where
  slot k hk := hslots k fun hmem =>
    hk (pageSlots_subset (fun q hq hge => absurd (hin q hq) (Nat.not_lt.mpr hge)) hmem)
  refused _ hbeyond := by
    obtain ⟨q, hq, hge⟩ := hbeyond
    exact absurd (hin q hq) (Nat.not_lt.mpr hge)

lemma Confined.of_refused (hrun : op.run h s w = (w, some false)) : op.Confined h s w where
  slot k _ := by rw [hrun]
  refused _ _ := by rw [hrun]

lemma confined_of_not_aliases (hv : w.Valid) (hno : ¬ op.Aliases) : op.Confined h s w := by
  cases op with
  | munmap addr len =>
    by_cases hargs : pgoffset addr.toNat ≠ 0 ∨ len.toNat = 0
    · refine .of_refused ?_
      simp only [run, sysMunmap, if_pos hargs]
      rfl
    rw [not_or, not_not] at hargs
    refine ⟨fun k hk => ?_, fun hop => by cases hop⟩
    have hslots := slotsOutside_ptUnmapAlways h s (ShellBox.page addr.toNat)
      (pageRoundUp len.toNat) w
    simp only [run, sysMunmap, if_neg (not_or.mpr ⟨not_not.mpr hargs.1, hargs.2⟩)]
    refine hslots k fun hmem => hk ((@pageSlots_subset w s (munmap addr len) ?_) hmem)
    intro q hq hge
    by_contra hout
    exact hno ⟨hargs, q, hq, hge, fun _ => hout⟩
  | mprotect addr len prot =>
    by_cases haddr : pgoffset addr.toNat ≠ 0
    · refine .of_refused ?_
      simp only [run, sysMprotect, if_pos haddr]
      rfl
    cases hprot : Prot.ofWord prot with
    | none =>
      refine .of_refused ?_
      simp only [run, sysMprotect, if_neg haddr, hprot]
      rfl
    | some prot' =>
      have hlt : prot < 8 := by
        by_contra hge
        rw [Prot.ofWord, if_neg hge] at hprot
        cases hprot
      refine .of_slots ?_ (in_table hno ⟨not_not.mp haddr, hlt⟩ rfl)
      simp only [run, sysMprotect, if_neg haddr, hprot]
      exact (ptSetFlags_protects hv h s _ _ prot').1.slot
  | madvise fileBacked noDontneed addr len advice =>
    by_cases haddr : pgoffset addr.toNat ≠ 0
    · refine .of_refused ?_
      simp only [run, sysMadvise, if_pos haddr]
      rfl
    have hin := in_table hno (not_not.mp haddr) rfl
    refine .of_slots (sysMadvise_slots hv ?_) hin
    rcases Nat.eq_zero_or_pos (pageRoundUp len.toNat) with hzero | hpos
    · exact Or.inl hzero
    · have hlast := hin (ShellBox.page addr.toNat + pageRoundUp len.toNat - 1)
        ⟨Nat.le_sub_one_of_lt (Nat.lt_add_of_pos_right hpos), Nat.sub_one_lt (by omega)⟩
      exact Or.inr (by omega)
  | mremap addr oldLen newLen =>
    by_cases haddr : pgoffset addr.toNat ≠ 0
    · refine .of_refused ?_
      simp only [run, sysMremap, if_pos haddr]
      rfl
    by_cases hold : ShellBox.page oldLen.toNat = 0
    · rcases Nat.eq_zero_or_pos (ShellBox.page newLen.toNat) with hnew | hnew
      · refine .of_slots (sysMremap_slots hv.balanced) fun q hq => ?_
        obtain ⟨hle, hlt⟩ := hq
        simp only [start, pages, hold, hnew, le_refl, if_true] at hle hlt
        omega
      · obtain ⟨e, he⟩ := @sysMremap_no_pages w h s addr oldLen newLen hold hnew
        refine .of_refused ?_
        simp only [run, he]
        rfl
    · exact .of_slots (sysMremap_slots hv.balanced) (in_table hno ⟨not_not.mp haddr, hold⟩ rfl)
  | access addr type =>
    have hmem : ShellBox.page addr.toNat < memPages :=
      in_table hno trivial rfl _ ⟨le_rfl, Nat.lt_succ_self _⟩
    refine ⟨fun k hk => ?_, fun _ hbeyond => ?_⟩
    · refine memPtr_slots hv.balanced (faultIn_slots hv.balanced hmem) ?_ k fun hin => hk ?_
      · exact ⟨rfl, Or.inl (ptIndex_of_lt hmem)⟩
      · obtain ⟨hs, hpage | hgap⟩ := hin
        · exact ⟨hs, Or.inl ⟨hpage.ge, hpage.le.trans_lt (Nat.lt_succ_self _)⟩⟩
        · exact ⟨hs, Or.inr hgap⟩
    · obtain ⟨q, ⟨hle, hlt⟩, hge⟩ := hbeyond
      simp only [start, pages] at hle hlt
      omega

/-! ### Operations beyond the table -/

structure Full (s : ℕ) (w : World) : Prop where
  valid : w.Valid
  slot : ∀ q, ∃ e, w.slot (s, ptIndex q) = some e ∧ e.flags = pRead ||| pWrite ||| pAnonymous

lemma exists_full (s : ℕ) : ∃ w, Full s w := by
  refine ⟨(ptMapNothing {} s 0 memPages (pRead ||| pWrite) World.init).1, ?_, fun q => ?_⟩
  · exact (steps_mapNothing_any 0 memPages (pRead ||| pWrite)
      World.valid_init.balanced).valid World.valid_init
  · have hlt := ptIndex_lt q
    obtain ⟨e, he, hflags⟩ := (ptMapNothing_slots (h := {}) (s := s) (pRead ||| pWrite)
      World.valid_init.balanced).2 le_rfl ⟨rfl, rfl⟩ (ptIndex q) (Nat.zero_le _)
      (hlt.trans_le (Nat.zero_add memPages).ge)
    rw [ptIndex_of_lt hlt] at he
    exact ⟨e, he, hflags⟩

lemma Full.isMapped (hw : Full s w) (q : ℕ) : isMapped w s q = true := by
  obtain ⟨e, he, -⟩ := hw.slot q
  rw [isMapped_eq_slot, he]
  rfl

lemma Full.memPtr (hw : Full s w) (addr : ℕ) (type : AccessType) :
    (memPtr {} s addr type w).2.isSome = true := by
  obtain ⟨e, he, hflags⟩ := hw.slot (ShellBox.page addr)
  cases type with
  | read =>
    rw [memPtr_read_mapped {} he]
    rfl
  | write =>
    exact memPtr_write_allowed hw.valid.balanced he (by rw [hflags]; rfl) ⟨rfl, rfl⟩
  | writePtrace =>
    have hprep := (@prepareWrite_slots w {} s (ShellBox.page addr) true hw.valid.balanced).2
      (by simp [he])
    have hok : (prepareWrite {} s (ShellBox.page addr) true w).2 = true := by
      unfold prepareWrite
      cases (w.mem s).pt.memPt (ShellBox.page addr) <;> rfl
    unfold ShellBox.memPtr
    rw [faultIn_mapped he]
    simp only [reduceCtorEq, if_false, decide_true]
    generalize prepareWrite {} s (ShellBox.page addr) true w = r at hprep hok
    obtain ⟨w₁, ok⟩ := r
    obtain rfl : ok = true := hok
    obtain ⟨e₁, he₁⟩ := Option.ne_none_iff_exists'.mp hprep
    simp [memPtrNofault, memPt_eq_slot, he₁]

lemma reservations_ptMapNothing {flags : Flags} (hnil : (w.mem s).reservations = []) :
    ((ptMapNothing h s start pages flags w).1.mem s).reservations = [] := by
  have hunmap {page : ℕ} {w : World} (hnil : (w.mem s).reservations = []) :
      ((ptUnmapAlways h s page 1 w).mem s).reservations = [] := by
    unfold ptUnmapAlways
    rw [reservations_memChanged]
    refine forLoop_invariant (P := fun v : World => (v.mem s).reservations = [])
      (fun i v _ hv => (reservations_unmapPage s s i v).trans hv) _ _ ?_
    simp [hnil, memRemoveReservations]
  unfold ptMapNothing
  split_ifs
  · exact hnil
  · unfold ptMap
    split_ifs
    · refine forLoop_invariant (P := fun v : World => (v.mem s).reservations = []) ?_ _ _ hnil
      intro i v _ hv
      have hbefore : ((if isMapped v s i then (ptUnmap h s i 1 v).1 else v).mem s).reservations =
          [] := by
        rw [unmap_before]
        split_ifs
        · exact hunmap hv
        · exact hv
      simpa [mapPage, World.memPtNew] using hbefore
    · exact hnil
  · exact hnil

structure OnlyMapped (s start pages : ℕ) (w : World) : Prop where
  valid : w.Valid
  reservations : (w.mem s).reservations = []
  slot : ∀ q, start ≤ q → q < start + pages →
    ∃ e, w.slot (s, ptIndex q) = some e ∧ e.flags = pRead ||| pAnonymous
  none : ∀ k, k ∉ pageSlots s start (start + pages) → w.slot k = none

lemma exists_onlyMapped (s start : ℕ) (hpages : pages ≤ memPages) :
    ∃ w, OnlyMapped s start pages w := by
  obtain ⟨hout, hin⟩ := @ptMapNothing_slots World.init {} s start pages pRead
    World.valid_init.balanced
  refine ⟨(ptMapNothing {} s start pages pRead World.init).1, ?_, ?_, ?_, fun k hk => ?_⟩
  · exact (steps_mapNothing_any start pages pRead
      World.valid_init.balanced).valid World.valid_init
  · exact reservations_ptMapNothing rfl
  · exact hin hpages ⟨rfl, rfl⟩
  · rw [hout k hk]
    rfl

lemma OnlyMapped.sysMremap {addr : BitVec 64} {oldLen newLen : BitVec 32}
    (hw : OnlyMapped s (ShellBox.page addr.toNat) (ShellBox.page oldLen.toNat) w)
    (haddr : pgoffset addr.toNat = 0) (hold : ShellBox.page oldLen.toNat ≠ 0)
    (hlt : ShellBox.page oldLen.toNat < ShellBox.page newLen.toNat) :
    (sysMremap {} s addr.toNat oldLen newLen w).2.map (·.isOk) = some true := by
  have hnew : ShellBox.page newLen.toNat ≤ memPages :=
    (Nat.div_le_self _ _).trans (newLen.isLt.le.trans (by decide))
  obtain ⟨e, he, hflags⟩ := hw.slot _ le_rfl (Nat.lt_add_of_pos_right (Nat.pos_of_ne_zero hold))
  have hpt : (w.mem s).pt.memPt (ShellBox.page addr.toNat) = some e := he
  have hall : allPages (isMapped w s) (ShellBox.page addr.toNat) (ShellBox.page oldLen.toNat) =
      true := by
    refine allPages_iff.mpr fun q hle hq => ?_
    obtain ⟨e', he', -⟩ := hw.slot q hle hq
    rw [isMapped_eq_slot, he']
    rfl
  have hhole : ptIsHole w s (ShellBox.page addr.toNat + ShellBox.page oldLen.toNat)
      (ShellBox.page newLen.toNat - ShellBox.page oldLen.toNat) = true := by
    rw [ptIsHole, hw.reservations, Bool.and_eq_true, allPages_iff]
    refine ⟨fun q hle hq => ?_, rfl⟩
    rw [isMapped_eq_slot, hw.none]
    · rfl
    · rintro ⟨-, q', hle', hq', heq⟩
      exact ptIndex_ne (show q' < q by omega) (by omega) heq.symm
  have hok : (ptMapNothing {} s (ShellBox.page addr.toNat + ShellBox.page oldLen.toNat)
      (ShellBox.page newLen.toNat - ShellBox.page oldLen.toNat) e.flags w).2 = .ok () :=
    ptMapNothing_of_grants ⟨rfl, rfl⟩ ((Nat.sub_le _ _).trans hnew)
  unfold ShellBox.sysMremap
  simp only [haddr, ne_eq, not_true_eq_false, if_false, if_neg (Nat.not_le.mpr hlt), hpt, hall,
    hflags, hhole, Bool.not_true, Bool.false_eq_true]
  rw [hflags] at hok
  generalize ptMapNothing {} s _ _ _ w = r at hok
  obtain ⟨w₁, res⟩ := r
  obtain rfl : res = .ok () := hok
  rfl

lemma Full.allPages (hw : Full s w) (start pages : ℕ) :
    allPages (ShellBox.isMapped w s) start pages = true :=
  allPages_iff.mpr fun q _ _ => hw.isMapped q

lemma Full.ptSetFlags (hw : Full s w) (start pages : ℕ) (prot : Prot) :
    (ptSetFlags {} s start pages prot.flags w).2 = .ok () := by
  have hprotects := @setFlagsLoop_protects s prot (start + pages) {} pages start w le_rfl
    hw.valid.balanced fun q _ _ hnot => absurd (hnot.symm.trans (hw.isMapped q)) (by simp)
  rw [ShellBox.ptSetFlags, if_pos]
  · exact hprotects.succeeds fun _ _ _ => rfl
  · exact allPages_iff.mpr fun q _ _ => by rw [hw.isMapped, Bool.true_or]

lemma Full.sysMadvise {fileBacked : DataId → Bool} {noDontneed : Bool} {addr : ℕ}
    {len advice : BitVec 32} (hw : Full s w) (haddr : pgoffset addr = 0) :
    (sysMadvise {} fileBacked noDontneed s addr len advice w).2.map (·.isOk) ≠ some false := by
  have hall : ShellBox.allPages (fun page => ShellBox.isMapped w s page ||
      (memFindReservation (w.mem s).reservations page).isSome) (ShellBox.page addr)
      (pageRoundUpDword len) = true :=
    allPages_iff.mpr fun q _ _ => by rw [hw.isMapped, Bool.true_or]
  unfold ShellBox.sysMadvise
  rw [if_neg (not_not.mpr haddr), hall, if_neg (by decide)]
  split_ifs
  · simp [Except.isOk, Except.toBool]
  · simp [Except.isOk, Except.toBool]
  · cases dontneedLoop {} fileBacked s ((addr + len.toNat) % 2 ^ 64) (pageRoundUp len.toNat) addr
        (w, false) <;> simp [Except.isOk, Except.toBool]
  · simp [Except.isOk, Except.toBool]

lemma exists_not_confined (s : ℕ) (ha : op.Aliases) :
    ∃ w : World, w.Valid ∧ ¬ op.Confined {} s w := by
  obtain ⟨hargs, q, hq, hge, hout⟩ := ha
  obtain ⟨w, hw⟩ := exists_full s
  cases op with
  | munmap addr len =>
    refine ⟨w, hw.valid, fun hc => ?_⟩
    obtain ⟨e, he, -⟩ := hw.slot q
    have hkept := hc.slot (s, ptIndex q) fun hmem => hmem.2.elim (hout rfl) id
    have hgone := ptUnmapAlways_slot_none {} s w hq.1 hq.2
    have hrun : ((munmap addr len).run {} s w).1 = ptUnmapAlways {} s (munmap addr len).start
        (munmap addr len).pages w := by
      simp only [run, sysMunmap, if_neg (not_or.mpr ⟨not_not.mpr hargs.1, hargs.2⟩)]
      rfl
    rw [hrun, hgone, he] at hkept
    cases hkept
  | mprotect addr len prot =>
    refine ⟨w, hw.valid, fun hc => ?_⟩
    have hrefused := hc.refused rfl ⟨q, hq, hge⟩
    simp only [run, sysMprotect, hargs.1, Prot.ofWord, hargs.2, ne_eq, not_true_eq_false,
      if_false, if_true, hw.ptSetFlags] at hrefused
    cases hrefused
  | madvise fileBacked noDontneed addr len advice =>
    exact ⟨w, hw.valid, fun hc => hw.sysMadvise hargs (hc.refused rfl ⟨q, hq, hge⟩)⟩
  | mremap addr oldLen newLen =>
    by_cases hle : ShellBox.page newLen.toNat ≤ ShellBox.page oldLen.toNat
    · refine ⟨w, hw.valid, fun hc => ?_⟩
      have hrefused := hc.refused rfl ⟨q, hq, hge⟩
      have hall := hw.allPages (ShellBox.page addr.toNat + ShellBox.page newLen.toNat)
        (ShellBox.page oldLen.toNat - ShellBox.page newLen.toNat)
      simp only [run, ShellBox.sysMremap, hargs.1, ne_eq, not_true_eq_false, if_false, if_pos hle,
        ptUnmap, if_pos hall] at hrefused
      cases hrefused
    · have hpages : ShellBox.page oldLen.toNat ≤ memPages :=
        (Nat.div_le_self _ _).trans (oldLen.isLt.le.trans (by decide))
      obtain ⟨w₁, hw₁⟩ := exists_onlyMapped s (ShellBox.page addr.toNat) hpages
      refine ⟨w₁, hw₁.valid, fun hc => ?_⟩
      have hgrown := hw₁.sysMremap hargs.1 hargs.2 (Nat.lt_of_not_le hle)
      have hrefused := hc.refused rfl ⟨q, hq, hge⟩
      cases hrefused.symm.trans hgrown
  | access addr type =>
    refine ⟨w, hw.valid, fun hc => ?_⟩
    have hrefused := hc.refused rfl ⟨q, hq, hge⟩
    simp only [run, hw.memPtr] at hrefused
    cases hrefused

/-- Exactly when an operation keeps to the pages of its range, whatever is mapped: when it does not
reach beyond the table. -/
theorem confined_iff (s : ℕ) (op : RangeOp) :
    (∀ h w, w.Valid → op.Confined h s w) ↔ ¬ op.Aliases := by
  refine ⟨fun hall ha => ?_, fun hno h w hv => confined_of_not_aliases hv hno⟩
  obtain ⟨w, hv, hnot⟩ := exists_not_confined s ha
  exact hnot (hall {} w hv)

/-- A guest with one page at `0x10000`. -/
def onePage : World :=
  (sysMmap {} 0 0x10000 4096 3 { isPrivate := true, fixed := true, anonymous := true } .badFd
    World.init).1

lemma onePage_valid : onePage.Valid := by
  obtain ⟨n, hsteps, -⟩ := @steps_sysMmap World.init {} 0 0x10000 4096 3
    { isPrivate := true, fixed := true, anonymous := true } .badFd World.valid_init.balanced
  exact hsteps.valid World.valid_init

/-- Unmapping a page at `0x1000000010000` unmaps the one at `0x10000`. -/
theorem munmap_aliases_page :
    onePage.Valid ∧ (onePage.slot (0, 0x10)).isSome = true ∧
      0x10 ∉ (munmap 0x1000000010000 4096).range ∧
      ((munmap 0x1000000010000 4096).run {} 0 onePage).1.slot (0, 0x10) = none ∧
      ¬ (munmap 0x1000000010000 4096).Confined {} 0 onePage := by
  have hmapped : (onePage.slot (0, 0x10)).isSome = true := by decide +kernel
  have hout : 0x10 ∉ (munmap 0x1000000010000 4096).range := fun hin => by
    have := hin.1
    revert this
    decide
  have hgone : ((munmap 0x1000000010000 4096).run {} 0 onePage).1.slot (0, 0x10) = none := by
    decide +kernel
  refine ⟨onePage_valid, hmapped, hout, hgone, fun hc => ?_⟩
  have hkept := hc.slot (0, 0x10) fun hmem => hmem.2.elim hout id
  rw [hgone] at hkept
  rw [← hkept] at hmapped
  cases hmapped

end RangeOp

end ShellBox
