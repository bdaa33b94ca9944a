import ShellBox.Kernel.Mmap
import ShellBox.Kernel.Memory.Protect

/-!
# `MAP_FIXED`

An anonymous private mapping at a fixed address is made in one of two ways. Most are made
eagerly, and every page of the range gets a new entry. A large one without access or with
`MAP_NORESERVE` is only recorded as a reservation, and what the guest sees in its pages is
decided when they are touched.
-/

namespace ShellBox

open Function World

variable {w : World} {h : Host} {s : ℕ}

def mapFixed (noreserve : Bool) : MmapFlags :=
  { isPrivate := true, fixed := true, anonymous := true, noreserve }

/-! ### What a replacement is -/

/-- The page has been replaced since `w`: a load from it gives zero, from memory that did not
exist in `w`, and the entry it then has carries exactly the new protection. A page without
entry needs memory from the host for that. -/
def World.Replaced (w w' : World) (s q : ℕ) (prot : Prot) : Prop :=
  ∀ (h : Host) (addr : ℕ), page addr = q → isMapped w' s q = true ∨ h.Grants q →
    ∃ w'' e, memPtr h s addr .read w' =
        (w'', some { data := e.data, offset := e.offset + pgoffset addr }) ∧
      w''.slot (s, ptIndex q) = some e ∧ e.flags &&& pRwx = prot.flags ∧ w.nextData ≤ e.data ∧
      ∀ i, w''.load { data := e.data, offset := i } = some 0

structure World.FixedReplaces (w w' : World) (s addr pages : ℕ) (prot : Prot) (a : ℕ) : Prop where
  address : a = addr
  inside : ∀ q, page addr ≤ q → q < page addr + pages → w.Replaced w' s q prot
  outside : w.SameOutside (pageSlots s (page addr) (page addr + pages)) w'

/-! ### Which mappings are made how -/

/-- A `MAP_NORESERVE` mapping is large enough to be reserved, and to be moved for it. -/
def mmapAligns (pages : ℕ) (noreserve : Bool) : Bool := noreserve && decide (0x10000 < pages)

def mmapIsLazy (pages : ℕ) (prot : Prot) (noreserve : Bool) : Bool :=
  mmapAligns pages noreserve || (prot.flags.isProtNone && decide (0x8000 ≤ pages))

/-- The address a large `MAP_NORESERVE` mapping is moved to if there is a hole. -/
def alignedStart (start pages : ℕ) : ℕ :=
  start / (if 0x40000 < pages then 0x40000 else pages) *
    (if 0x40000 < pages then 0x40000 else pages)

def mmapMoves (w : World) (s start pages : ℕ) (noreserve : Bool) : Bool :=
  mmapAligns pages noreserve && decide (alignedStart start pages ≠ start) &&
    (decide (mmapHoleEnd ≤ alignedStart start pages) &&
      ptIsHole w s (alignedStart start pages) pages)

lemma alignRange_start (w : World) (s : ℕ) (r : PageRange) :
    (alignRange w s r).start =
      if mmapHoleEnd ≤ alignedStart r.start r.pages &&
          ptIsHole w s (alignedStart r.start r.pages) r.pages then alignedStart r.start r.pages
      else r.start := by
  unfold alignRange
  simp only [alignedStart]
  split_ifs <;> rfl

lemma alignRange_of_stays {r : PageRange} (hstay : (alignRange w s r).start = r.start) :
    alignRange w s r = r := by
  have hpages : (alignRange w s r).pages = r.pages := by
    unfold alignRange
    simp only
    split_ifs <;> rfl
  cases hr : alignRange w s r with
  | mk start pages fits =>
    rw [hr] at hstay hpages
    cases r
    simp only at hstay hpages
    subst hstay hpages
    rfl

lemma slot_eq_none {r : PageRange} {q : ℕ} (hlt : q < r.start + r.pages)
    (hq : isMapped w s q = false) : w.slot (s, q) = none := by
  rwa [isMapped_eq_slot, ptIndex_of_lt (hlt.trans_le r.fits), Option.isSome_eq_false_iff,
    Option.isNone_iff_eq_none] at hq

/-! ### The eager way -/

lemma mmapProt_flags (prot : Prot) :
    ((mmapProt prot false).1 ||| pAnonymous) &&& pRwx = prot.flags := by
  obtain ⟨read, write, exec⟩ := prot
  cases read <;> cases write <;> cases exec <;> rfl

lemma mmapEager_address {r : PageRange} {prot : Prot} {a : ℕ}
    (hok : (mmapEager h s r prot false w).2 = .ok a) : a = r.start * pageSize := by
  unfold mmapEager at hok
  simp only at hok
  split at hok
  · simp at hok
  · split at hok
    · simp at hok
    · exact (Except.ok.inj hok).symm

lemma mmapEager_replaces {r : PageRange} {prot : Prot} {a : ℕ} (hb : w.Balanced)
    (hok : (mmapEager h s r prot false w).2 = .ok a) :
      (∀ q, r.start ≤ q → q < r.start + r.pages →
        w.Replaced (mmapEager h s r prot false w).1 s q prot) ∧
      w.SameOutside (pageSlots s r.start (r.start + r.pages))
        (mmapEager h s r prot false w).1 := by
  unfold mmapEager at hok ⊢
  simp only at hok ⊢
  by_cases hlimit : (!prot.flags.isProtNone &&
      decide ((anonMmapLimitPages : ℤ) < w.anonPageCount + r.pages)) = true
  · simp [hlimit] at hok
  rw [if_neg hlimit] at hok ⊢
  have hcount : ∃ v : World, (if prot.flags.isProtNone = true then w else w.addAnon r.pages) = v ∧
      v.Balanced ∧ v.nextData = w.nextData ∧
      w.SameOutside (pageSlots s r.start (r.start + r.pages)) v := by
    refine ⟨_, rfl, ?_⟩
    split_ifs
    · exact ⟨hb, rfl, .refl w⟩
    · exact ⟨hb, rfl, .of_data (fun _ _ => rfl) rfl fun _ _ _ => rfl⟩
  obtain ⟨v, hv, hbv, hnext, hsame⟩ := hcount
  rw [hv] at hok ⊢
  obtain ⟨hout, hentries⟩ := ptMapNothing_range h s r.start r.pages (mmapProt prot false).1 hbv
    (mmapProt prot false).2
  generalize ptMapNothing h s r.start r.pages (mmapProt prot false).1 v = res at hok hout hentries ⊢
  obtain ⟨w', result⟩ := res
  cases result with
  | error e => simp at hok
  | ok _ =>
    refine ⟨fun q hle hlt => ?_, hsame.trans hout⟩
    obtain ⟨o, hslot, hzero⟩ := hentries rfl q hle hlt
    rintro h' addr rfl -
    exact ⟨w', _, memPtr_read_mapped h' hslot, hslot, mmapProt_flags prot, hnext.ge, hzero⟩

/-! ### The lazy way -/

structure World.Recorded (w w' : World) (s : ℕ) (r : PageRange) (flags : Flags) : Prop where
  slot : w'.slot = w.slot
  data : w'.data = w.data
  nextData : w'.nextData = w.nextData
  balanced : w.Balanced → w'.Balanced
  reserved : ∀ q, r.start ≤ q → q < r.start + r.pages → w'.reservedFlags s q = some flags
  outside : ∀ s' q, (s' = s → ¬ (r.start ≤ q ∧ q < r.start + r.pages)) →
    w'.reservedFlags s' q = w.reservedFlags s' q

lemma ptMapLazy_recorded {r : PageRange} {flags : { f : Flags // f.IsMapFlags }}
    (hok : (ptMapLazy h s r flags w).2 = .ok ()) :
    w.Recorded (ptMapLazy h s r flags w).1 s r (flags.1 ||| pAnonymous) := by
  unfold ptMapLazy at hok ⊢
  simp only at hok ⊢
  split_ifs at hok ⊢
  constructor
  · rw [memChanged_slot, setMem_slot _ _ _ (by rfl)]
  · rfl
  · rfl
  · intro hb
    exact (steps_memChanged (S := ⟨∅, ∅, False⟩) _ s).balanced
      ((steps_setMem (S := ⟨∅, ∅, False⟩) (by rfl)).balanced hb)
  · intro q hle hlt
    rw [reservedFlags, reservations_memChanged, setMem_self]
    simp [memFindReservation, MemReservation.covers, hle, hlt]
  · intro s' q hq
    rw [reservedFlags, reservations_memChanged]
    by_cases hs : s' = s
    · subst hs
      have hno : (decide (r.start ≤ q) && decide (q < r.start + r.pages)) = false := by
        simpa using hq rfl
      simp only [setMem_self, memFindReservation, List.find?_cons, MemReservation.covers, hno]
      rfl
    · rw [setMem_of_ne _ _ _ hs, reservedFlags]

lemma World.Recorded.sameOutside {w' : World} {r : PageRange} {flags : Flags}
    (hr : w.Recorded w' s r flags) : w.SameOutside (pageSlots s r.start (r.start + r.pages)) w' := by
  apply SameOutside.of_data
  · exact fun k _ => by rw [hr.slot]
  · exact hr.data
  · intro s' q hq
    apply hr.outside
    rintro rfl ⟨hle, hlt⟩
    have hin := mem_pageSlots (s := s') hle hlt
    rw [ptIndex_of_lt (hlt.trans_le r.fits)] at hin
    exact hq hin

lemma World.Recorded.replaced {w' : World} {r : PageRange} {prot : Prot} {q : ℕ}
    (hr : w.Recorded w' s r ((mmapProt prot false).1 ||| pAnonymous)) (hb : w.Balanced)
    (hle : r.start ≤ q) (hlt : q < r.start + r.pages) (hempty : w.slot (s, q) = none)
    (hstack : ¬ w.StackAbove s q) : w.Replaced w' s q prot := by
  rintro h addr rfl hgrants
  have hmem : page addr < memPages := hlt.trans_le r.fits
  have hempty' : w'.slot (s, page addr) = none := by rw [hr.slot, hempty]
  have hg : h.Grants (page addr) := by
    refine hgrants.resolve_left ?_
    rw [isMapped_eq_slot, ptIndex_of_lt hmem, hempty']
    simp
  -- the fault takes the new reservation and maps one zeroed page
  obtain ⟨res, hfind, hflags⟩ := Option.map_eq_some_iff.mp (hr.reserved _ hle hlt)
  have hmark : (res.flags &&& ~~~pGrowsdown).IsMapFlags := by
    simpa [Flags.IsMapFlags, pGrowsdown] using res.mapFlags
  have hfault : faultIn h s (page addr) w' = ((ptMapNothing h s (page addr) 1
      (res.flags &&& ~~~pGrowsdown) (w'.addAnon 1)).1, true) := by
    rw [faultIn_of_no_stack h hempty' hmem (mt (StackAbove.congr hr.slot).mp hstack), mapReserved,
      hfind]
  have hb' : (w'.addAnon 1).Balanced := hr.balanced hb
  obtain ⟨-, hentries⟩ := ptMapNothing_range h s (page addr) 1 (res.flags &&& ~~~pGrowsdown)
    hb' hmark
  obtain ⟨o, hslot, hzero⟩ := hentries (ptMapNothing_of_grants hg (by decide)) (page addr) le_rfl
    (Nat.lt_succ_self _)
  refine ⟨_, _, ?_, hslot, ?_, hr.nextData.ge, hzero⟩
  · rw [← memPt_eq_slot] at hslot
    simp only [memPtr, hfault, if_true, memPtrNofault, hslot]
    rfl
  · rw [hflags, ← mmapProt_flags prot]
    obtain ⟨read, write, exec⟩ := prot
    cases read <;> cases write <;> cases exec <;> rfl

lemma World.Recorded.unmapped_of_replaced {w' : World} {r : PageRange} {flags : Flags}
    {prot : Prot} {q : ℕ} (hr : w.Recorded w' s r flags) (hb : w.Balanced)
    (hq : w.Replaced w' s q prot) : isMapped w s q = false := by
  rw [Bool.eq_false_iff]
  intro hmap
  obtain ⟨e, he⟩ : ∃ e, w.slot (s, ptIndex q) = some e := Option.isSome_iff_exists.mp hmap
  have he' : w'.slot (s, ptIndex q) = some e := by rw [hr.slot, he]
  have hpage : page (byteAddr q 0) = q := page_byteAddr (by decide)
  obtain ⟨w'', e'', hptr, hslot, -, hnew, -⟩ := hq {} (byteAddr q 0) hpage (Or.inr ⟨rfl, rfl⟩)
  rw [← hpage] at he'
  rw [memPtr_read_mapped {} he', Prod.mk.injEq] at hptr
  obtain ⟨rfl, -⟩ := hptr
  rw [← hpage, he', Option.some.injEq] at hslot
  subst hslot
  exact absurd (hb.lt_nextData he) (Nat.not_lt.mpr hnew)

lemma exists_beyond_stackLimit {r : PageRange} (hpages : 0x8000 ≤ r.pages) :
    ∃ q, r.start ≤ q ∧ q < r.start + r.pages ∧
      withinStackLimit { stackLimit := some 0 } q = false := by
  have hlimit : ∀ q, q < 2 ^ 36 → q < 0xfffde ∨ 0xffffe < q →
      withinStackLimit { stackLimit := some 0 } q = false := by
    intro q hq hout
    have hfar : ¬ ((0xffffe + 2 ^ 64 - q) % 2 ^ 64 * 4096 % 2 ^ 64 ≤ 131072) := by
      rcases hout with hout | hout
      · rw [show (0xffffe + 2 ^ 64 - q) % 2 ^ 64 = 0xffffe - q by omega]
        omega
      · rw [show (0xffffe + 2 ^ 64 - q) % 2 ^ 64 = 0xffffe + 2 ^ 64 - q by omega]
        omega
    exact decide_eq_false hfar
  have hfits : r.start + r.pages ≤ 2 ^ 36 := r.fits
  by_cases hstart : r.start < 0xfffde ∨ 0xffffe < r.start
  · exact ⟨r.start, le_rfl, by omega, hlimit _ (by omega) hstart⟩
  · exact ⟨r.start + 0x7fff, by omega, by omega, hlimit _ (by omega) (by omega)⟩

lemma World.Recorded.no_stack_of_replaced {w' : World} {r : PageRange} {flags : Flags}
    {prot : Prot} (hr : w.Recorded w' s r flags) (hb : w.Balanced) (hpages : 0x8000 ≤ r.pages)
    (hall : ∀ q, r.start ≤ q → q < r.start + r.pages → w.Replaced w' s q prot) :
    ∀ q, r.start ≤ q → q < r.start + r.pages → ¬ w.StackAbove s q := by
  have hempty : ∀ q, r.start ≤ q → q < r.start + r.pages → w.slot (s, q) = none := by
    intro q hle hlt
    apply slot_eq_none hlt
    exact hr.unmapped_of_replaced hb (hall q hle hlt)
  rintro q hle hlt ⟨p, e, hqp, he, hgrows, hgap⟩
  have hp : r.start + r.pages ≤ p := by
    by_contra hlt'
    exact absurd ((hempty p (by omega) (by omega)).symm.trans he) (by simp)
  -- the stack is above every page of the range, also above one beyond its limit
  obtain ⟨q', hle', hlt', hlimit⟩ := exists_beyond_stackLimit hpages
  have hstack : w'.StackAbove s q' := by
    refine (StackAbove.congr hr.slot).mpr ⟨p, e, by omega, he, hgrows, fun i hi hip => ?_⟩
    rcases Nat.lt_or_ge i (r.start + r.pages) with hin | hout
    · exact hempty i (by omega) hin
    · exact hgap i (by omega) hip
  have hmem : q' < memPages := hlt'.trans_le r.fits
  have hpage : page (byteAddr q' 0) = q' := page_byteAddr (by decide)
  obtain ⟨w'', e'', hptr, -⟩ := hall q' hle' hlt' { stackLimit := some 0 } (byteAddr q' 0) hpage
    (Or.inr ⟨rfl, rfl⟩)
  have hfault : faultIn { stackLimit := some 0 } s q' w' = (w', false) :=
    faultIn_of_stack (by rw [hr.slot, hempty q' hle' hlt']) hmem hstack hlimit
  simp [memPtr, hpage, hfault] at hptr

/-! ### Both ways -/

def lazyRange (w : World) (s : ℕ) (r : PageRange) (noreserve : Bool) : PageRange :=
  if mmapAligns r.pages noreserve then alignRange w s r else r

lemma lazyRange_of_stays {r : PageRange} {noreserve : Bool}
    (hstay : (lazyRange w s r noreserve).start = r.start) : lazyRange w s r noreserve = r := by
  unfold lazyRange at hstay ⊢
  split_ifs at hstay ⊢
  · exact alignRange_of_stays hstay
  · rfl

lemma lazyRange_start_iff (w : World) (s : ℕ) (r : PageRange) (noreserve : Bool) :
    (lazyRange w s r noreserve).start = r.start ↔
      mmapMoves w s r.start r.pages noreserve = false := by
  unfold lazyRange mmapMoves
  cases mmapAligns r.pages noreserve with
  | false => simp
  | true =>
    rw [if_pos rfl, alignRange_start, Bool.true_and]
    by_cases hsame : alignedStart r.start r.pages = r.start
    · simp [hsame]
    · cases hhole : (decide (mmapHoleEnd ≤ alignedStart r.start r.pages) &&
        ptIsHole w s (alignedStart r.start r.pages) r.pages) <;> simp [hsame]

section Fixed

variable {r : PageRange} {prot : Prot} {noreserve : Bool} {file : MmapFile} {a addr : ℕ}

lemma mmapAt_eager (hlazy : mmapIsLazy r.pages prot noreserve = false) :
    mmapAt h s r prot (mapFixed noreserve) file w = mmapEager h s r prot false w := by
  simp only [mmapIsLazy, mmapAligns, Bool.or_eq_false_iff] at hlazy
  simp only [mmapAt, mapFixed, hlazy.1, hlazy.2, if_true, Bool.false_eq_true, if_false]

lemma mmapAt_lazy (hlazy : mmapIsLazy r.pages prot noreserve = true) :
    mmapAt h s r prot (mapFixed noreserve) file w =
      mmapResult (lazyRange w s r noreserve).start
        (ptMapLazy h s (lazyRange w s r noreserve) (mmapProt prot false) w) := by
  simp only [mmapIsLazy, mmapAligns, Bool.or_eq_true] at hlazy
  simp only [mmapAt, mapFixed, lazyRange, mmapAligns, if_true]
  by_cases halign : (noreserve && decide (0x10000 < r.pages)) = true
  · simp only [halign, if_true]
  · have hnone := hlazy.resolve_left halign
    rw [Bool.not_eq_true] at halign
    simp only [halign, hnone, Bool.false_eq_true, if_false, if_true]

lemma mmapAt_lazy_ok (hlazy : mmapIsLazy r.pages prot noreserve = true)
    (hok : (mmapAt h s r prot (mapFixed noreserve) file w).2 = .ok a) :
    a = (lazyRange w s r noreserve).start * pageSize ∧
      w.Recorded (mmapAt h s r prot (mapFixed noreserve) file w).1 s (lazyRange w s r noreserve)
        ((mmapProt prot false).1 ||| pAnonymous) := by
  rw [mmapAt_lazy hlazy] at hok ⊢
  have hrec : (ptMapLazy h s (lazyRange w s r noreserve) (mmapProt prot false) w).2 = .ok () →
      w.Recorded _ s _ _ := ptMapLazy_recorded
  generalize ptMapLazy h s (lazyRange w s r noreserve) (mmapProt prot false) w = res at hok hrec ⊢
  obtain ⟨w', result⟩ := res
  cases result with
  | error e => simp [mmapResult] at hok
  | ok _ =>
    simp only [mmapResult, Except.ok.injEq] at hok
    exact ⟨hok.symm, hrec rfl⟩

lemma mmapIsLazy_pages (hlazy : mmapIsLazy r.pages prot noreserve = true) : 0x8000 ≤ r.pages := by
  simp only [mmapIsLazy, mmapAligns, Bool.or_eq_true, Bool.and_eq_true, decide_eq_true_eq] at hlazy
  omega

lemma mmapAt_fixed_iff (hb : w.Balanced) (haddr : addr = r.start * pageSize)
    (hok : (mmapAt h s r prot (mapFixed noreserve) file w).2 = .ok a) :
    w.FixedReplaces (mmapAt h s r prot (mapFixed noreserve) file w).1 s addr r.pages prot a ↔
      (mmapIsLazy r.pages prot noreserve = true →
        mmapMoves w s r.start r.pages noreserve = false ∧
          ∀ q, r.start ≤ q → q < r.start + r.pages →
            isMapped w s q = false ∧ ¬ w.StackAbove s q) := by
  have hpage : page addr = r.start := by
    rw [haddr, page, Nat.mul_div_cancel _ (by decide)]
  cases hlazy : mmapIsLazy r.pages prot noreserve with
  | false =>
    rw [mmapAt_eager hlazy] at hok ⊢
    obtain ⟨hin, hout⟩ := mmapEager_replaces hb hok
    have ha := (mmapEager_address hok).trans haddr.symm
    refine ⟨fun _ hfalse => absurd hfalse (by simp), fun _ => ⟨ha, ?_, ?_⟩⟩
    · rwa [hpage]
    · rwa [hpage]
  | true =>
    obtain ⟨ha, hrec⟩ := mmapAt_lazy_ok hlazy hok
    constructor
    · rintro ⟨haddr', hin, -⟩ -
      have hstart : (lazyRange w s r noreserve).start = r.start :=
        Nat.eq_of_mul_eq_mul_right (by decide : 0 < pageSize)
          (ha.symm.trans (haddr'.trans haddr))
      rw [lazyRange_of_stays hstart] at hrec
      rw [hpage] at hin
      refine ⟨(lazyRange_start_iff w s r noreserve).mp hstart, fun q hle hlt => ⟨?_, ?_⟩⟩
      · exact hrec.unmapped_of_replaced hb (hin q hle hlt)
      · exact hrec.no_stack_of_replaced hb (mmapIsLazy_pages hlazy) hin q hle hlt
    · intro hcond
      obtain ⟨hmoves, hpages⟩ := hcond rfl
      have hstay := (lazyRange_start_iff w s r noreserve).mpr hmoves
      rw [lazyRange_of_stays hstay] at hrec ha
      refine ⟨ha.trans haddr.symm, ?_, ?_⟩
      · rw [hpage]
        intro q hle hlt
        obtain ⟨hno, hstack⟩ := hpages q hle hlt
        exact hrec.replaced hb hle hlt (slot_eq_none hlt hno) hstack
      · rw [hpage]
        exact hrec.sameOutside

lemma mmapAt_pos (hstart : 0 < r.start)
    (hok : (mmapAt h s r prot (mapFixed noreserve) file w).2 = .ok a) : 0 < a := by
  have hpos : ∀ start, 0 < start → 0 < start * pageSize := fun start hs =>
    Nat.mul_pos hs (by decide)
  cases hlazy : mmapIsLazy r.pages prot noreserve with
  | false =>
    rw [mmapAt_eager hlazy] at hok
    rw [mmapEager_address hok]
    exact hpos _ hstart
  | true =>
    rw [(mmapAt_lazy_ok hlazy hok).1]
    apply hpos
    unfold lazyRange
    split_ifs
    · rw [alignRange_start]
      split_ifs with hhole
      · rw [Bool.and_eq_true, decide_eq_true_eq] at hhole
        exact lt_of_lt_of_le (by decide) hhole.1
      · exact hstart
    · exact hstart

lemma mmapPlace_fixed {pages : ℕ} {hpages : 0 < pages} {cage : Bool} {m : Mem}
    (hplace : mmapPlace w s addr pages hpages true cage = (.ok r, m)) :
    (addr = 0 ∧ 0 < r.start) ∨
      (addr ≠ 0 ∧ addr = r.start * pageSize ∧ r.pages = pages ∧ m = w.mem s) := by
  have hhole : placeInHole (w.mem s) pages hpages cage = (.ok r, m) → 0 < r.start := by
    intro hin
    unfold placeInHole at hin
    split at hin
    · next start m' heq =>
      simp only [Prod.mk.injEq, Except.ok.injEq] at hin
      rw [← hin.1]
      exact ptFindHoleImpl_pos hpages heq
    · simp at hin
  have hdiv : pgoffset addr = 0 → addr = page addr * pageSize := by
    intro hoff
    simp only [pgoffset, page, pageSize] at hoff ⊢
    omega
  unfold mmapPlace at hplace
  simp only [Bool.not_true, Bool.false_and, Bool.false_eq_true, if_false, if_true] at hplace
  by_cases hoff : pgoffset addr ≠ 0
  · simp [hoff] at hplace
  rw [if_neg hoff] at hplace
  by_cases hzero : addr = 0
  · rw [if_pos hzero] at hplace
    exact Or.inl ⟨hzero, hhole hplace⟩
  rw [if_neg hzero] at hplace
  right
  split_ifs at hplace
  all_goals
    simp only [Prod.mk.injEq, reduceCtorEq, false_and, Except.ok.injEq] at hplace
  all_goals
    obtain ⟨rfl, rfl⟩ := hplace
    exact ⟨hzero, hdiv (not_not.mp hoff), rfl, rfl⟩

end Fixed

lemma sysMmap_fixed_ok {len word : ℕ} {prot : Prot} {noreserve : Bool} {file : MmapFile}
    {a addr : ℕ} (hprot : Prot.ofWord word = some prot)
    (hok : (sysMmap h s addr len word (mapFixed noreserve) file w).2 = .ok a) :
    ∃ r m, ((addr = 0 ∧ 0 < r.start) ∨
        (addr ≠ 0 ∧ addr = r.start * pageSize ∧ r.pages = pageRoundUp len ∧ m = w.mem s)) ∧
      sysMmap h s addr len word (mapFixed noreserve) file w =
        mmapAt h s r prot (mapFixed noreserve) file (w.setMem s m) := by
  unfold sysMmap at hok ⊢
  by_cases hlen : len = 0
  · simp [hlen] at hok
  rw [if_neg hlen] at hok ⊢
  simp only [hprot, mapFixed, Bool.and_false, Bool.false_eq_true, if_false] at hok ⊢
  by_cases hpages : 0 < pageRoundUp len
  swap
  · simp [hpages] at hok
  rw [dif_pos hpages] at hok ⊢
  cases hplace : mmapPlace w s addr (pageRoundUp len) hpages true
    (isV8CageReservation (pageRoundUp len) prot (mapFixed noreserve)) with
  | mk result m =>
    rw [mapFixed] at hplace
    cases result with
    | error e => simp [hplace] at hok
    | ok r => exact ⟨r, m, mmapPlace_fixed hplace, by simp only [hplace]⟩

lemma setMem_same (w : World) (s : ℕ) : w.setMem s (w.mem s) = w := by
  simp [World.setMem]

end ShellBox
