import ShellBox.Kernel.AddressWidth
import ShellBox.Kernel.Memory.ReservationsExact
import ShellBox.Kernel.Memory.Seen

/-!
# What `mremap` keeps

A mapping shrinks or grows where it is. The bytes that stay are kept, the new range has the
protection of the old one, pages elsewhere are left alone, and a call that fails changes nothing.

`sys_mremap` of `kernel/mmap.c` takes lengths in bytes, and cuts both down to whole pages where
the other calls round up.
-/

namespace ShellBox

open Function World

/-! ### The call -/

def mremapMaymove : BitVec 32 := 1

def mremapFixed : BitVec 32 := 2

/-- The arguments of `sys_mremap`. -/
structure MremapCall where
  addr : BitVec 64
  oldLen : BitVec 32
  newLen : BitVec 32
  flags : BitVec 32

namespace MremapCall

/-- `sys_mremap`, with the checks of its flags. -/
def run (h : Host) (s : ℕ) (c : MremapCall) (w : World) : World × Option (Except Errno ℕ) :=
  if pgoffset c.addr.toNat ≠ 0 then (w, some (.error .einval))
  else if c.flags &&& ~~~(mremapMaymove ||| mremapFixed) ≠ 0 then (w, some (.error .einval))
  else if c.flags &&& mremapFixed ≠ 0 then (w, some (.error .einval))
  else sysMremap h s c.addr.toNat c.oldLen c.newLen w

def start (c : MremapCall) : ℕ := page c.addr.toNat

def oldPages (c : MremapCall) : ℕ := page c.oldLen.toNat

def newPages (c : MremapCall) : ℕ := page c.newLen.toNat

/-- What a call that returns `r` has done: the bytes of the old range are at `r`, every byte of the
new range is accessible as the old range was, and the pages of neither range are unchanged. -/
structure Remaps (s : ℕ) (c : MremapCall) (w w' : World) (r : ℕ) : Prop where
  bytes : ∀ i < c.oldLen.toNat, i < c.newLen.toNat →
    w'.byteAt s (r + i) = w.byteAt s (c.addr.toNat + i)
  kept : ∀ i < c.oldLen.toNat, i < c.newLen.toNat → ∃ p,
    w'.protOf s (page (r + i)) = some p ∧ w.protOf s (page (c.addr.toNat + i)) = some p
  grown : ∀ i, c.oldLen.toNat ≤ i → i < c.newLen.toNat → ∃ p,
    w'.protOf s (page (r + i)) = some p ∧
      ∀ j < c.oldLen.toNat, w.protOf s (page (c.addr.toNat + j)) = some p
  outside : w.SameOutside {k | k.1 = s ∧ (k.2 ∈ pagesOf c.addr.toNat c.oldLen.toNat ∨
    k.2 ∈ pagesOf r c.newLen.toNat)} w'

def KeepsOrFails (h : Host) (s : ℕ) (c : MremapCall) (w : World) : Prop :=
  match c.run h s w with
  | (w', some (.ok r)) => c.Remaps s w w' r
  | (w', some (.error _)) => w' = w
  | (_, none) => False

/-! ### When it does -/

def Refused (c : MremapCall) : Prop :=
  pgoffset c.addr.toNat ≠ 0 ∨ c.flags &&& ~~~(mremapMaymove ||| mremapFixed) ≠ 0 ∨
    c.flags &&& mremapFixed ≠ 0

structure Accessible (s : ℕ) (c : MremapCall) (w : World) : Prop where
  kept : ∀ i < c.oldLen.toNat, i < c.newLen.toNat → w.protOf s (page (c.addr.toNat + i)) ≠ none
  grown : ∀ i, c.oldLen.toNat ≤ i → i < c.newLen.toNat → ∃ p,
    w.protOf s (page (c.addr.toNat + i)) = some p ∧
      ∀ j < c.oldLen.toNat, w.protOf s (page (c.addr.toNat + j)) = some p

/-- With no more pages than before: unless a page behind the new ones is not mapped, what is given
up begins with a page and lies in the table, and the rest is accessible. -/
def ShrinkFits (s : ℕ) (c : MremapCall) (w : World) : Prop :=
  (∀ q, c.start + c.newPages ≤ q → q < c.start + c.oldPages → isMapped w s q = true) →
    (c.newPages < c.oldPages →
      c.newLen.toNat % pageSize = 0 ∧ c.start + c.oldPages ≤ memPages) ∧ c.Accessible s w

/-- The old length is one of whole pages with the protection of the first of them, the new pages
lie in the table, and a part of a page at the end is accessible already. -/
structure GrowsWhole (s : ℕ) (c : MremapCall) (w : World) (p : Prot) : Prop where
  whole : c.oldLen.toNat % pageSize = 0
  inTable : c.start + c.newPages ≤ memPages
  same : ∀ q, c.start ≤ q → q < c.start + c.oldPages → w.protOf s q = some p
  last : c.newLen.toNat % pageSize ≠ 0 → w.protOf s (c.start + c.newPages) = some p

/-- With more pages than before: unless the first page is not mapped, all old pages are, and unless
the mapping is of a file or something is in the way, it grows by whole pages. -/
def GrowFits (s : ℕ) (c : MremapCall) (w : World) : Prop :=
  ∀ e, w.slot (s, ptIndex c.start) = some e →
    (∀ q, c.start ≤ q → q < c.start + c.oldPages → isMapped w s q = true) ∧
      (e.flags.anonymous = true →
        ptIsHole w s (c.start + c.oldPages) (c.newPages - c.oldPages) = true →
          c.GrowsWhole s w e.flags.prot)

/-- The arguments are refused, or the pages are such that the lengths may be cut down. -/
def Fits (s : ℕ) (c : MremapCall) (w : World) : Prop :=
  c.Refused ∨ (c.newPages ≤ c.oldPages ∧ c.ShrinkFits s w) ∨
    (c.oldPages < c.newPages ∧ c.GrowFits s w)

end MremapCall

variable {h : Host} {s : ℕ} {w w' : World} {c : MremapCall} {p q start pages : ℕ}

/-! ### Pages of a range -/

lemma ptIndex_lt_start (hle : p ≤ q) (hlt : q < p + 2 ^ 20) (hq : memPages ≤ q) :
    ptIndex q < p := by
  have hindex := ptIndex_lt q
  rcases Nat.lt_or_ge p memPages with hp | hp
  · unfold ptIndex memPages at *
    omega
  · exact hindex.trans_le hp

lemma pageSlots_inTable {lo hi : ℕ} (hhi : hi ≤ memPages) {k : ℕ × ℕ}
    (hk : k ∈ pageSlots s lo hi) : k.1 = s ∧ lo ≤ k.2 ∧ k.2 < hi := by
  obtain ⟨hs, q, hle, hlt, hq⟩ := hk
  rw [ptIndex_of_lt (hlt.trans_le hhi)] at hq
  exact ⟨hs, hq ▸ hle, hq ▸ hlt⟩

lemma notMem_pageSlots {lo hi : ℕ} (hout : q < lo ∨ hi ≤ q) (hhi : hi ≤ q + memPages)
    (hq : q < lo + memPages) : (s, ptIndex q) ∉ pageSlots s lo hi := by
  rintro ⟨-, q', hle, hlt, heq⟩
  rcases hout with hout | hout
  · exact ptIndex_ne (hout.trans_le hle) (by omega) heq
  · exact ptIndex_ne (hlt.trans_le hout) (by omega) heq.symm

/-! ### What is outside a range -/

lemma reserved_outside (hpages : ∀ s' q, (s' = s → ¬ (start ≤ q ∧ q < start + pages)) →
    w'.reservedFlags s' q = w.reservedFlags s' q) (s' q : ℕ)
    (hq : (s', q) ∉ pageSlots s start (start + pages)) :
    w'.reservedFlags s' q = w.reservedFlags s' q := by
  rcases Nat.lt_or_ge q memPages with hmem | hmem
  · apply hpages
    rintro rfl ⟨hle, hlt⟩
    have hin := mem_pageSlots (s := s') hle hlt
    rw [ptIndex_of_lt hmem] at hin
    exact hq hin
  · rw [reservedFlags_of_ge _ _ hmem, reservedFlags_of_ge _ _ hmem]

lemma sameOutside_ptUnmapAlways (h : Host) (s start pages : ℕ) (hb : w.Balanced) :
    w.SameOutside (pageSlots s start (start + pages)) (ptUnmapAlways h s start pages w) :=
  .of_steps (steps_ptUnmapAlways (S := anyScope) fun _ _ _ => mayReplace_any w _) hb
    (slotsOutside_ptUnmapAlways h s start pages w)
    (reserved_outside fun _ _ hq => reservedFlags_ptUnmapAlways h w hq)

lemma reservedFlags_ptMapNothing {s' : ℕ} (h : Host) (flags : Flags) (w : World)
    (hq : s' = s → ¬ (start ≤ q ∧ q < start + pages)) :
    (ptMapNothing h s start pages flags w).1.reservedFlags s' q = w.reservedFlags s' q := by
  unfold ptMapNothing
  split_ifs
  · rfl
  · exact reservedFlags_ptMap h w hq
  · rfl

lemma sameOutside_ptMapNothing (h : Host) (s start pages : ℕ) (flags : Flags) (hb : w.Balanced) :
    w.SameOutside (pageSlots s start (start + pages)) (ptMapNothing h s start pages flags w).1 :=
  .of_steps (steps_mapNothing_any start pages flags hb) hb (ptMapNothing_slots flags hb).1
    (reserved_outside fun _ _ hq => reservedFlags_ptMapNothing h flags w hq)

lemma protOf_unmapped (hle : start ≤ q) (hlt : q < start + pages) :
    (ptUnmapAlways {} s start pages w).protOf s q = none := by
  have hres : (ptUnmapAlways {} s start pages w).reservedFlags s q = none := by
    rw [World.reservedFlags, reservations_ptUnmapAlways,
      memRemoveReservations_exact (fun _ => rfl), if_pos ⟨hle, hlt⟩]
  rw [World.protOf, ptUnmapAlways_slot_none {} s w hle hlt, hres]
  rfl

lemma protOf_hole (hhole : ptIsHole w s start pages = true) (hle : start ≤ q)
    (hlt : q < start + pages) : w.slot (s, ptIndex q) = none ∧ w.protOf s q = none := by
  rw [ptIsHole, Bool.and_eq_true, allPages_iff] at hhole
  have hslot : w.slot (s, ptIndex q) = none := by
    have := hhole.1 q hle hlt
    rwa [isMapped_eq_slot, Bool.not_eq_true', Option.isSome_eq_false_iff,
      Option.isNone_iff_eq_none] at this
  refine ⟨hslot, ?_⟩
  have hres : memFindReservation (w.mem s).reservations q = none := by
    refine memFindReservation_eq_none fun r hr => ?_
    by_contra hcov
    rw [Bool.not_eq_false, MemReservation.covers_iff] at hcov
    have hmeets : reservationsOverlap (w.mem s).reservations start pages = true := by
      refine List.any_eq_true.mpr ⟨r, hr, ?_⟩
      simp only [MemReservation.meets, Bool.and_eq_true, decide_eq_true_eq]
      omega
    simp [hmeets] at hhole
  rw [World.protOf, hslot, World.reservedFlags, hres]
  rfl

lemma protOf_ptMapNothing {flags : Flags} (hb : w.Balanced) (hpages : pages ≤ memPages)
    (hok : (ptMapNothing h s start pages flags w).2 = .ok ()) (hle : start ≤ q)
    (hlt : q < start + pages) :
    (ptMapNothing h s start pages flags w).1.protOf s q = some flags.prot ∧
      (ptMapNothing h s start pages flags w).1.slot (s, ptIndex q) ≠ none := by
  have hgrants : h.Grants start := by
    unfold ptMapNothing ptMap at hok
    split_ifs at hok with hzero hmmap hdata
    · omega
    · exact ⟨hmmap.1, hdata⟩
  obtain ⟨e, he, hflags⟩ :=
    (@ptMapNothing_slots w h s start pages flags hb).2 hpages hgrants q hle hlt
  refine ⟨?_, by simp [he]⟩
  rw [protOf_mapped he, hflags]
  simp [Flags.prot, pAnonymous]

lemma ptMapNothing_error {flags : Flags} {err : Errno}
    (herr : (ptMapNothing h s start pages flags w).2 = .error err) :
    (ptMapNothing h s start pages flags w).1 = w := by
  unfold ptMapNothing ptMap at herr ⊢
  split_ifs at herr ⊢ <;> rfl

namespace MremapCall

/-! ### Runs of the call -/

lemma run_of_refused (hc : c.Refused) : c.run h s w = (w, some (.error .einval)) := by
  unfold run
  split_ifs with haddr hflags hfixed
  · rfl
  · rfl
  · rfl
  · exact absurd hc (not_or.mpr ⟨haddr, not_or.mpr ⟨hflags, hfixed⟩⟩)

lemma aligned (hc : ¬ c.Refused) : pgoffset c.addr.toNat = 0 := not_not.mp (not_or.mp hc).1

lemma run_of_not_refused (hc : ¬ c.Refused) :
    c.run h s w = sysMremap h s c.addr.toNat c.oldLen c.newLen w := by
  obtain ⟨haddr, hrest⟩ := not_or.mp hc
  obtain ⟨hflags, hfixed⟩ := not_or.mp hrest
  rw [run, if_neg haddr, if_neg hflags, if_neg hfixed]

lemma oldPages_lt (c : MremapCall) : c.oldPages < 2 ^ 20 := by
  have := c.oldLen.isLt
  unfold oldPages page pageSize
  omega

lemma newPages_lt (c : MremapCall) : c.newPages < 2 ^ 20 := by
  have := c.newLen.isLt
  unfold newPages page pageSize
  omega

lemma run_shrink (hc : ¬ c.Refused) (hle : c.newPages ≤ c.oldPages) :
    c.run h s w =
      if allPages (isMapped w s) (c.start + c.newPages) (c.oldPages - c.newPages) then
        (ptUnmapAlways h s (c.start + c.newPages) (c.oldPages - c.newPages) w,
          some (.ok c.addr.toNat))
      else (w, some (.error .efault)) := by
  rw [run_of_not_refused hc, sysMremap, if_neg (not_not.mpr (aligned hc))]
  unfold start newPages oldPages at *
  simp only
  rw [if_pos hle, ptUnmap]
  by_cases hall : allPages (isMapped w s) (page c.addr.toNat + page c.newLen.toNat)
      (page c.oldLen.toNat - page c.newLen.toNat) = true
  · rw [if_pos hall, if_pos hall]
  · rw [if_neg hall, if_neg hall]

lemma run_grow (hc : ¬ c.Refused) (hlt : c.oldPages < c.newPages) {e : PtEntry}
    (he : w.slot (s, ptIndex c.start) = some e) :
    c.run h s w =
      if !allPages (isMapped w s) c.start c.oldPages then (w, none)
      else if !e.flags.anonymous then (w, some (.error .efault))
      else if !ptIsHole w s (c.start + c.oldPages) (c.newPages - c.oldPages) then
        (w, some (.error .enomem))
      else
        ((ptMapNothing h s (c.start + c.oldPages) (c.newPages - c.oldPages) e.flags w).1,
          some ((ptMapNothing h s (c.start + c.oldPages) (c.newPages - c.oldPages) e.flags w).2.map
            fun _ => c.addr.toNat)) := by
  have hpt : (w.mem s).pt.memPt (page c.addr.toNat) = some e := he
  rw [run_of_not_refused hc, sysMremap, if_neg (not_not.mpr (aligned hc))]
  unfold start newPages oldPages at *
  simp only
  rw [if_neg (not_le.mpr hlt), hpt]
  simp only
  split_ifs
  · rfl
  · rfl
  · rfl
  · generalize ptMapNothing h s _ _ e.flags w = r
    obtain ⟨w', _ | _⟩ := r <;> rfl

lemma run_grow_none (hc : ¬ c.Refused) (hlt : c.oldPages < c.newPages)
    (he : w.slot (s, ptIndex c.start) = none) :
    c.run h s w = (w, some (.error .efault)) := by
  have hpt : (w.mem s).pt.memPt (page c.addr.toNat) = none := he
  rw [run_of_not_refused hc, sysMremap, if_neg (not_not.mpr (aligned hc))]
  unfold newPages oldPages at hlt
  simp only
  rw [if_neg (not_le.mpr hlt), hpt]

/-! ### Shrinking -/

lemma notMem_given (hc : ¬ c.Refused) (hle : c.newPages ≤ c.oldPages)
    (hcut : c.newPages < c.oldPages → c.newLen.toNat % pageSize = 0) {i : ℕ}
    (hi : i < c.newLen.toNat) :
    (s, ptIndex (page (c.addr.toNat + i))) ∉ pageSlots s (c.start + c.newPages)
      (c.start + c.newPages + (c.oldPages - c.newPages)) := by
  have hold := c.oldPages_lt
  have hbound := c.newLen.isLt
  have hmem : memPages = 2 ^ 36 := rfl
  rw [page_add (aligned hc)]
  apply notMem_pageSlots
  all_goals
    unfold start newPages oldPages page pageSize at *
    omega

lemma remaps_shrink (hv : w.Valid) (hc : ¬ c.Refused) (hle : c.newPages ≤ c.oldPages)
    (hcut : c.newPages < c.oldPages →
      c.newLen.toNat % pageSize = 0 ∧ c.start + c.oldPages ≤ memPages)
    (hacc : c.Accessible s w) :
    c.Remaps s w (ptUnmapAlways h s (c.start + c.newPages) (c.oldPages - c.newPages) w)
      c.addr.toNat := by
  have hout := sameOutside_ptUnmapAlways h s (c.start + c.newPages) (c.oldPages - c.newPages)
    hv.balanced
  have hkeep : ∀ i < c.newLen.toNat, _ := fun i hi =>
    notMem_given (s := s) hc hle (fun hlt => (hcut hlt).1) hi
  refine ⟨fun i _ hi => hout.byteAt (hkeep i hi), fun i hold hi => ?_, fun i hold hi => ?_, ?_⟩
  · obtain ⟨p, hp⟩ := Option.ne_none_iff_exists'.mp (hacc.kept i hold hi)
    exact ⟨p, (hout.protOf (hkeep i hi)).trans hp, hp⟩
  · obtain ⟨p, hp, hall⟩ := hacc.grown i hold hi
    exact ⟨p, (hout.protOf (hkeep i hi)).trans hp, hall⟩
  · refine hout.mono fun k hk => ?_
    have hlt : c.newPages < c.oldPages := by
      obtain ⟨-, q, hlo, hhi, -⟩ := hk
      omega
    obtain ⟨hs, hlo, hhi⟩ := pageSlots_inTable (by have := (hcut hlt).2; omega) hk
    refine ⟨hs, Or.inl ((mem_pagesOf (aligned hc)).mpr ?_)⟩
    unfold start newPages oldPages page pageSize at *
    omega

lemma keepsOrFails_shrink (hv : w.Valid) (hc : ¬ c.Refused) (hle : c.newPages ≤ c.oldPages) :
    (∀ h, c.KeepsOrFails h s w) ↔ c.ShrinkFits s w := by
  constructor
  · intro hall hmapped
    have hpages : allPages (isMapped w s) (c.start + c.newPages) (c.oldPages - c.newPages) =
        true := allPages_iff.mpr fun q hlo hhi => hmapped q hlo (by omega)
    have hrem := hall {}
    rw [KeepsOrFails, run_shrink hc hle, if_pos hpages] at hrem
    have hout := sameOutside_ptUnmapAlways {} s (c.start + c.newPages)
      (c.oldPages - c.newPages) hv.balanced
    have hcut : c.newPages < c.oldPages →
        c.newLen.toNat % pageSize = 0 ∧ c.start + c.oldPages ≤ memPages := by
      intro hlt
      constructor
      · -- the page that holds the end of the new range is given up
        by_contra hpart
        obtain ⟨p, hp, -⟩ := hrem.kept (c.newPages * pageSize)
          (by unfold newPages oldPages page pageSize at *; omega)
          (by unfold newPages oldPages page pageSize at *; omega)
        rw [page_add (aligned hc), Nat.mul_div_cancel _ (by decide)] at hp
        have hgone : (ptUnmapAlways {} s (c.start + c.newPages) (c.oldPages - c.newPages)
            w).protOf s (c.start + c.newPages) = none := protOf_unmapped le_rfl (by omega)
        rw [start] at hgone
        rw [start, hgone] at hp
        cases hp
      · -- a page behind the table is unmapped in front of the range
        by_contra hover
        have hold := c.oldPages_lt
        obtain ⟨q, hq⟩ : ∃ q, q + 1 = c.start + c.oldPages :=
          ⟨c.start + c.oldPages - 1, by omega⟩
        have hin := hmapped q (by omega) (by omega)
        rw [isMapped_eq_slot] at hin
        have hfront : ptIndex q < c.start := ptIndex_lt_start (by omega) (by omega) (by omega)
        have hkept := hrem.outside.slot (s, ptIndex q) fun hmem =>
          hmem.2.elim (fun hq' => absurd hq'.1 hfront.not_ge) fun hq' =>
            absurd hq'.1 hfront.not_ge
        rw [ptUnmapAlways_slot_none {} s w (by omega) (by omega)] at hkept
        rw [← hkept] at hin
        cases hin
    refine ⟨hcut, fun i hold hi => ?_, fun i hold hi => ?_⟩
    · obtain ⟨p, -, hp⟩ := hrem.kept i hold hi
      simp [hp]
    · obtain ⟨p, hp, hall⟩ := hrem.grown i hold hi
      rw [hout.protOf (notMem_given hc hle (fun hlt => (hcut hlt).1) hi)] at hp
      exact ⟨p, hp, hall⟩
  · intro hfits h
    rw [KeepsOrFails, run_shrink hc hle]
    by_cases hpages : allPages (isMapped w s) (c.start + c.newPages)
        (c.oldPages - c.newPages) = true
    · rw [if_pos hpages]
      obtain ⟨hcut, hacc⟩ := hfits fun q hlo hhi => allPages_iff.mp hpages q hlo (by omega)
      exact remaps_shrink hv hc hle hcut hacc
    · rw [if_neg hpages]

/-! ### Growing -/

lemma oldPages_pos {e : PtEntry} (hlt : c.oldPages < c.newPages)
    (he : w.slot (s, ptIndex c.start) = some e)
    (hhole : ptIsHole w s (c.start + c.oldPages) (c.newPages - c.oldPages) = true) :
    0 < c.oldPages := by
  rw [Nat.pos_iff_ne_zero]
  intro hzero
  have hnone := (protOf_hole (q := c.start) hhole (by omega) (by omega)).1
  rw [he] at hnone
  cases hnone

lemma notMem_extra (hlt : c.oldPages < c.newPages)
    (hq : c.start ≤ q ∧ q < c.start + c.oldPages ∨ q = c.start + c.newPages) :
    (s, ptIndex q) ∉ pageSlots s (c.start + c.oldPages)
      (c.start + c.oldPages + (c.newPages - c.oldPages)) := by
  have hnew := c.newPages_lt
  have hmem : memPages = 2 ^ 36 := rfl
  apply notMem_pageSlots <;> omega

lemma remaps_grow (hv : w.Valid) (hc : ¬ c.Refused) (hlt : c.oldPages < c.newPages) {e : PtEntry}
    (hgrows : c.GrowsWhole s w e.flags.prot)
    (hok : (ptMapNothing h s (c.start + c.oldPages) (c.newPages - c.oldPages) e.flags w).2 =
      .ok ()) :
    c.Remaps s w
      (ptMapNothing h s (c.start + c.oldPages) (c.newPages - c.oldPages) e.flags w).1
      c.addr.toNat := by
  have hout := sameOutside_ptMapNothing h s (c.start + c.oldPages) (c.newPages - c.oldPages)
    e.flags hv.balanced
  have hwhole := hgrows.whole
  have hnew := c.newPages_lt
  have hpages : c.newPages - c.oldPages ≤ memPages :=
    (Nat.sub_le _ _).trans (hnew.le.trans (by decide))
  have hold : ∀ i < c.oldLen.toNat, c.start ≤ page (c.addr.toNat + i) ∧
      page (c.addr.toNat + i) < c.start + c.oldPages := by
    intro i hi
    rw [page_add (aligned hc)]
    unfold start oldPages page pageSize at *
    omega
  refine ⟨fun i hi _ => ?_, fun i hi _ => ?_, fun i hi hlen => ?_, ?_⟩
  · exact hout.byteAt (notMem_extra hlt (Or.inl (hold i hi)))
  · have hp := hgrows.same _ (hold i hi).1 (hold i hi).2
    exact ⟨_, (hout.protOf (notMem_extra hlt (Or.inl (hold i hi)))).trans hp, hp⟩
  · refine ⟨e.flags.prot, ?_, fun j hj => hgrows.same _ (hold j hj).1 (hold j hj).2⟩
    have hpage : page (c.addr.toNat + i) = c.start + i / pageSize := page_add (aligned hc) i
    by_cases hin : i / pageSize < c.newPages
    · refine (protOf_ptMapNothing hv.balanced hpages hok ?_ ?_).1
      · rw [hpage]
        unfold oldPages page pageSize at *
        omega
      · omega
    · -- the last part of a page is not mapped by the call
      have hlast : page (c.addr.toNat + i) = c.start + c.newPages := by
        rw [hpage]
        unfold newPages page pageSize at *
        omega
      rw [hout.protOf (notMem_extra hlt (Or.inr hlast)), hlast]
      apply hgrows.last
      unfold newPages page pageSize at *
      omega
  · refine hout.mono fun k hk => ?_
    obtain ⟨hs, hlo, hhi⟩ := pageSlots_inTable (by have := hgrows.inTable; omega) hk
    refine ⟨hs, Or.inr ((mem_pagesOf (aligned hc)).mpr ?_)⟩
    unfold start newPages oldPages page pageSize at *
    omega

lemma growsWhole_of_remaps (hv : w.Valid) (hc : ¬ c.Refused) (hlt : c.oldPages < c.newPages)
    {e : PtEntry} (he : w.slot (s, ptIndex c.start) = some e)
    (hhole : ptIsHole w s (c.start + c.oldPages) (c.newPages - c.oldPages) = true)
    (hok : (ptMapNothing h s (c.start + c.oldPages) (c.newPages - c.oldPages) e.flags w).2 =
      .ok ())
    (hrem : c.Remaps s w
      (ptMapNothing h s (c.start + c.oldPages) (c.newPages - c.oldPages) e.flags w).1
      c.addr.toNat) : c.GrowsWhole s w e.flags.prot := by
  have hout := sameOutside_ptMapNothing h s (c.start + c.oldPages) (c.newPages - c.oldPages)
    e.flags hv.balanced
  have hpos := oldPages_pos hlt he hhole
  have hnew := c.newPages_lt
  have hpages : c.newPages - c.oldPages ≤ memPages :=
    (Nat.sub_le _ _).trans (hnew.le.trans (by decide))
  have hwhole : c.oldLen.toNat % pageSize = 0 := by
    -- the page that holds the end of the old range was not there
    by_contra hpart
    obtain ⟨p, -, hp⟩ := hrem.kept (c.oldPages * pageSize)
      (by unfold newPages oldPages page pageSize at *; omega)
      (by unfold newPages oldPages page pageSize at *; omega)
    have hpage : page (c.addr.toNat + c.oldPages * pageSize) = c.start + c.oldPages := by
      rw [page_add (aligned hc), Nat.mul_div_cancel _ (by decide), start]
    rw [hpage, (protOf_hole hhole le_rfl (by omega)).2] at hp
    cases hp
  have hfirst : page (c.addr.toNat + 0) = c.start := rfl
  have hlen : 0 < c.oldLen.toNat := by
    unfold oldPages page pageSize at hpos
    omega
  refine ⟨hwhole, ?_, fun q hlo hhi => ?_, fun hpart => ?_⟩
  · -- a page behind the table is mapped in front of the range
    by_contra hover
    obtain ⟨q, hq⟩ : ∃ q, q + 1 = c.start + c.newPages := ⟨c.start + c.newPages - 1, by omega⟩
    have hnone := (protOf_hole (q := q) hhole (by omega) (by omega)).1
    have hsome := (protOf_ptMapNothing (q := q) hv.balanced hpages hok (by omega) (by omega)).2
    have hfront : ptIndex q < c.start := ptIndex_lt_start (by omega) (by omega) (by omega)
    have hkept := hrem.outside.slot (s, ptIndex q) fun hmem =>
      hmem.2.elim (fun hq' => absurd hq'.1 hfront.not_ge) fun hq' => absurd hq'.1 hfront.not_ge
    exact hsome (hkept.trans hnone)
  · obtain ⟨p, hp, hall⟩ := hrem.grown c.oldLen.toNat le_rfl
      (by unfold newPages oldPages page pageSize at *; omega)
    have hpage : page (c.addr.toNat + c.oldLen.toNat) = c.start + c.oldPages := by
      rw [page_add (aligned hc)]
      rfl
    rw [hpage, (protOf_ptMapNothing hv.balanced hpages hok le_rfl (by omega)).1] at hp
    obtain ⟨j, rfl⟩ := Nat.exists_eq_add_of_le hlo
    have hold := hall (j * pageSize) (by unfold oldPages page pageSize at *; omega)
    rw [page_add (aligned hc), Nat.mul_div_cancel _ (by decide)] at hold
    exact hold.trans hp.symm
  · obtain ⟨p, hp, hall⟩ := hrem.grown (c.newPages * pageSize)
      (by unfold newPages oldPages page pageSize at *; omega)
      (by unfold newPages oldPages page pageSize at *; omega)
    have hpage : page (c.addr.toNat + c.newPages * pageSize) = c.start + c.newPages := by
      rw [page_add (aligned hc), Nat.mul_div_cancel _ (by decide), start]
    rw [hpage, hout.protOf (notMem_extra hlt (Or.inr rfl))] at hp
    have hold := hall 0 hlen
    rw [hfirst, protOf_mapped he] at hold
    exact hp.trans hold.symm

lemma keepsOrFails_grow (hv : w.Valid) (hc : ¬ c.Refused) (hlt : c.oldPages < c.newPages) :
    (∀ h, c.KeepsOrFails h s w) ↔ c.GrowFits s w := by
  constructor
  · intro hall e he
    have hrem := hall {}
    rw [KeepsOrFails, run_grow hc hlt he] at hrem
    by_cases hpages : allPages (isMapped w s) c.start c.oldPages = true
    swap
    · rw [if_pos (by simp [hpages])] at hrem
      exact hrem.elim
    refine ⟨allPages_iff.mp hpages, fun hanon hhole => ?_⟩
    have hok : (ptMapNothing {} s (c.start + c.oldPages) (c.newPages - c.oldPages) e.flags w).2 =
        .ok () :=
      ptMapNothing_of_grants ⟨rfl, rfl⟩
        ((Nat.sub_le _ _).trans (c.newPages_lt.le.trans (by decide)))
    rw [if_neg (by simp [hpages]), if_neg (by simp [hanon]), if_neg (by simp [hhole]), hok] at hrem
    exact growsWhole_of_remaps hv hc hlt he hhole hok hrem
  · intro hfits h
    rw [KeepsOrFails]
    cases he : w.slot (s, ptIndex c.start) with
    | none => rw [run_grow_none hc hlt he]
    | some e =>
      obtain ⟨hmapped, hgrows⟩ := hfits e he
      rw [run_grow hc hlt he, if_neg (by simp [allPages_iff.mpr hmapped])]
      by_cases hanon : e.flags.anonymous = true
      swap
      · rw [if_pos (by simp [hanon])]
      rw [if_neg (by simp [hanon])]
      by_cases hhole : ptIsHole w s (c.start + c.oldPages) (c.newPages - c.oldPages) = true
      swap
      · rw [if_pos (by simp [hhole])]
      rw [if_neg (by simp [hhole])]
      cases hok : (ptMapNothing h s (c.start + c.oldPages) (c.newPages - c.oldPages) e.flags
          w).2 with
      | error err => exact ptMapNothing_error hok
      | ok _ =>
        exact remaps_grow hv hc hlt (hgrows hanon hhole) hok

/-- Exactly when `mremap` keeps what the process sees, or fails and changes nothing, whatever the
host answers: when its lengths may be cut down to whole pages, the pages it keeps are there with
one protection, and it does not reach beyond the table. -/
theorem mremap_keeps_iff (hv : w.Valid) (c : MremapCall) :
    (∀ h, c.KeepsOrFails h s w) ↔ c.Fits s w := by
  by_cases hc : c.Refused
  · refine iff_of_true (fun h => ?_) (Or.inl hc)
    rw [KeepsOrFails, run_of_refused hc]
  rcases Nat.lt_or_ge c.oldPages c.newPages with hlt | hle
  · rw [keepsOrFails_grow hv hc hlt, Fits]
    simp [hc, hlt, hlt.not_ge]
  · rw [keepsOrFails_shrink hv hc hle, Fits]
    simp [hc, hle, hle.not_gt]

/-- A page that becomes two. -/
theorem mremap_keeps_onePage : KeepsOrFails {} 0 ⟨0x10000, 4096, 8192, 0⟩ RangeOp.onePage := by
  refine (mremap_keeps_iff RangeOp.onePage_valid _).mpr (Or.inr (Or.inr ⟨by decide, ?_⟩)) {}
  intro e he
  have hone : ∀ q, 16 ≤ q → q < 17 → q = 16 := fun q hlo hhi => by omega
  refine ⟨fun q hlo hhi => ?_, fun _ _ => ⟨by decide, by decide, fun q hlo hhi => ?_, fun hpart =>
    absurd rfl hpart⟩⟩
  · obtain rfl := hone q hlo hhi
    rw [isMapped_eq_slot]
    exact Option.isSome_iff_exists.mpr ⟨e, he⟩
  · obtain rfl := hone q hlo hhi
    exact protOf_mapped he

/-- A page that is to become 6000 bytes long stays one page, and the call succeeds. -/
theorem mremap_keeps_part : ¬ KeepsOrFails {} 0 ⟨0x10000, 4096, 6000, 0⟩ RangeOp.onePage := by
  obtain ⟨w, hw⟩ : ∃ w, w = (run {} 0 ⟨0x10000, 4096, 6000, 0⟩ RangeOp.onePage).1 := ⟨_, rfl⟩
  have hrun : run {} 0 ⟨0x10000, 4096, 6000, 0⟩ RangeOp.onePage = (w, some (.ok 0x10000)) := by
    rw [hw]
    rfl
  have hnone : w.protOf 0 (page (0x10000 + 5000)) = none := by
    rw [hw]
    decide +kernel
  intro hkeeps
  rw [KeepsOrFails, hrun] at hkeeps
  obtain ⟨p, hp, -⟩ := hkeeps.grown 5000 (by decide) (by decide)
  rw [hnone] at hp
  cases hp

end MremapCall

end ShellBox
