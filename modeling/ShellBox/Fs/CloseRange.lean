import ShellBox.Fs.FdHolders

/-!
# Closing a range of descriptors

`sys_close_range` takes unsigned bounds and compares them as `fd_t`. Each round of its loop reads a
slot of the array before it does anything, and has no result outside the array.
-/

namespace ShellBox

open Function

def fdEinval : ℤ := -22

def FdTable.Open (T : FdTable) (f : ℕ) : Prop := (T.files[f]?).join.isSome

instance FdTable.decidableOpen (T : FdTable) (f : ℕ) : Decidable (T.Open f) :=
  inferInstanceAs (Decidable ((T.files[f]?).join.isSome = true))

/-- The descriptions in the slots from `lo` up to `hi`. -/
def FdTable.openIn (T : FdTable) (lo hi : ℕ) : List FdId :=
  (List.range' lo (hi - lo)).filterMap fun f => (T.files[f]?).join

namespace FdWorld

def closeRangeRound (tb : TableId) (flags : ℕ) (w : FdWorld) (f : ℤ) : Option FdWorld :=
  (w.tables tb).bind fun T =>
    if f < 0 ∨ T.files.length ≤ f.toNat then none else some (closeRangeSlot tb flags w f)

/-- `sys_close_range` with its accesses to the array. -/
def closeRange (w : FdWorld) (tb : TableId) (T : FdTable) (first last flags : ℕ) :
    Option (FdWorld × ℤ) :=
  if last < first then some (w, fdEinval)
  else
    let lim := asFdT T.files.length
    let last := if lim ≤ asFdT last then lim - 1 else asFdT last
    ((List.range (last + 1 - asFdT first).toNat).foldlM
      (fun w (i : ℕ) => closeRangeRound tb flags w (asFdT first + i)) w).map (·, 0)

/-- A slot of the table after the range from `lo` up to `hi` has been closed, or marked. -/
def SlotDone (T T' : FdTable) (lo hi : ℕ) (mark : Bool) (f : ℕ) : Prop :=
  if lo ≤ f ∧ f < hi ∧ T.Open f then
    T'.files[f]? = (if mark then T.files[f]? else some none) ∧ T'.cloexec f = mark
  else T'.files[f]? = T.files[f]? ∧ T'.cloexec f = T.cloexec f

/-- The range from `lo` up to `hi` has been closed, or marked, and nothing else has changed. -/
structure RangeDone (w : FdWorld) (tb : TableId) (T : FdTable) (lo hi : ℕ) (mark : Bool)
    (w' : FdWorld) : Prop where
  table : ∃ T', w'.tables tb = some T' ∧ T'.files.length = T.files.length ∧
    ∀ f, SlotDone T T' lo hi mark f
  others : ∀ tb', tb' ≠ tb → w'.tables tb' = w.tables tb'
  refcount : w'.refcount = (if mark then w else (T.openIn lo hi).foldl fdClose w).refcount
  closed : w'.closed = (if mark then w else (T.openIn lo hi).foldl fdClose w).closed

variable {w w' : FdWorld} {tb : TableId} {T : FdTable} {lo hi flags : ℕ} {mark : Bool}

/-! ### One slot -/

lemma open_iff {f : ℕ} : T.Open f ↔ ∃ fd, (T.files[f]?).join = some fd :=
  Option.isSome_iff_exists

lemma lt_of_open {f : ℕ} (h : T.Open f) : f < T.files.length := by
  by_contra hf
  rw [FdTable.Open, List.getElem?_eq_none (not_lt.mp hf)] at h
  cases h

lemma openIn_self (T : FdTable) (lo : ℕ) : T.openIn lo lo = [] := by
  rw [FdTable.openIn, Nat.sub_self]
  rfl

lemma openIn_succ (T : FdTable) (h : lo ≤ hi) :
    T.openIn lo (hi + 1) = T.openIn lo hi ++ (T.files[hi]?).join.toList := by
  rw [FdTable.openIn, FdTable.openIn, Nat.sub_add_comm h, List.range'_concat, List.filterMap_append,
    Nat.one_mul, Nat.add_sub_cancel' h]
  cases hfd : (T.files[hi]?).join <;> simp [hfd]

lemma fdClose_congr {u v : FdWorld} (hr : u.refcount = v.refcount) (hc : u.closed = v.closed)
    (fd : FdId) : (u.fdClose fd).refcount = (v.fdClose fd).refcount ∧
      (u.fdClose fd).closed = (v.fdClose fd).closed := by
  have hstore : u.fdStore.drop fd = v.fdStore.drop fd := by
    simp only [RefStore.drop, fdStore, hr, hc]
  rw [fdClose_eq, fdClose_eq]
  exact ⟨congrArg Prod.fst hstore, congrArg Prod.snd hstore⟩

lemma slotDone_of_notOpen {T' : FdTable} {f : ℕ} (hf : ¬ T.Open f)
    (h : SlotDone T T' lo hi mark f) (hi' : ℕ) : SlotDone T T' lo hi' mark f := by
  rw [SlotDone, if_neg fun h' => hf h'.2.2] at h ⊢
  exact h

lemma slotDone_succ {T' : FdTable} {f : ℕ} (hne : f ≠ hi) :
    SlotDone T T' lo (hi + 1) mark f ↔ SlotDone T T' lo hi mark f := by
  have hiff : f < hi + 1 ↔ f < hi := Nat.lt_succ_iff_lt_or_eq.trans (or_iff_left hne)
  simp only [SlotDone, hiff]

lemma RangeDone.skip (h : RangeDone w tb T lo hi mark w') (hle : lo ≤ hi) (hno : ¬ T.Open hi) :
    RangeDone w tb T lo (hi + 1) mark w' := by
  obtain ⟨T', hT', hlen, hslot⟩ := h.table
  have hnone : (T.files[hi]?).join.toList = [] := by
    cases hfd : (T.files[hi]?).join with
    | none => rfl
    | some fd => exact absurd (open_iff.mpr ⟨fd, hfd⟩) hno
  refine ⟨⟨T', hT', hlen, fun f => ?_⟩, h.others, ?_, ?_⟩
  · by_cases hf : f = hi
    · exact slotDone_of_notOpen (hf ▸ hno) (hslot f) _
    · exact (slotDone_succ hf).mpr (hslot f)
  · rw [openIn_succ T hle, hnone, List.append_nil]
    exact h.refcount
  · rw [openIn_succ T hle, hnone, List.append_nil]
    exact h.closed

lemma RangeDone.change {u : FdWorld} {T' T'' : FdTable} (h : RangeDone w tb T lo hi mark w')
    (hT' : w'.tables tb = some T') (htables : u.tables = update w'.tables tb (some T''))
    (hlen : T''.files.length = T'.files.length)
    (hother : ∀ f, f ≠ hi → T''.files[f]? = T'.files[f]? ∧ T''.cloexec f = T'.cloexec f)
    (hself : SlotDone T T'' lo (hi + 1) mark hi)
    (hcount : u.refcount = (if mark then w else (T.openIn lo (hi + 1)).foldl fdClose w).refcount)
    (hclosed : u.closed = (if mark then w else (T.openIn lo (hi + 1)).foldl fdClose w).closed) :
    RangeDone w tb T lo (hi + 1) mark u := by
  obtain ⟨T₀, hT₀, hlen₀, hslot⟩ := h.table
  obtain rfl : T₀ = T' := Option.some.inj (hT₀.symm.trans hT')
  refine ⟨⟨T'', by rw [htables, update_self], hlen.trans hlen₀, fun f => ?_⟩,
    fun tb' htb => ?_, hcount, hclosed⟩
  · by_cases hf : f = hi
    · exact hf ▸ hself
    · rw [slotDone_succ hf, SlotDone, (hother f hf).1, (hother f hf).2]
      exact hslot f
  · rw [htables, update_of_ne htb]
    exact h.others tb' htb

lemma store_nat (T : FdTable) (f : ℕ) (v : Option FdId) :
    T.store f v = { T with files := T.files.set f v } := by
  rw [FdTable.store, if_neg (by omega), Int.toNat_natCast]

lemma setCloexec_nat (T : FdTable) (f : ℕ) (bit : Bool) :
    T.setCloexec f bit = { T with cloexec := update T.cloexec f bit } := by
  rw [FdTable.setCloexec, if_neg (by omega), Int.toNat_natCast]

lemma RangeDone.step (h : RangeDone w tb T lo hi (decide (flags &&& 0x04 ≠ 0)) w') (hle : lo ≤ hi)
    (hlt : hi < T.files.length) : ∃ u, closeRangeRound tb flags w' hi = some u ∧
      RangeDone w tb T lo (hi + 1) (decide (flags &&& 0x04 ≠ 0)) u := by
  obtain ⟨T', hT', hlen, hslot⟩ := h.table
  have hsame : T'.files[hi]? = T.files[hi]? := by
    have hs := hslot hi
    rw [SlotDone, if_neg fun h' => Nat.lt_irrefl _ h'.2.1] at hs
    exact hs.1
  have hin : ¬ ((hi : ℤ) < 0 ∨ T'.files.length ≤ (hi : ℤ).toNat) := by
    rw [Int.toNat_natCast, hlen]
    omega
  have hget : T'.get hi = (T.files[hi]?).join := by
    rw [FdTable.get, if_neg hin, Int.toNat_natCast, hsame]
  refine ⟨closeRangeSlot tb flags w' hi, ?_, ?_⟩
  · rw [closeRangeRound, hT', Option.bind_some, if_neg hin]
  cases hfd : (T.files[hi]?).join with
  | none =>
    have hw : closeRangeSlot tb flags w' hi = w' := by
      simp only [closeRangeSlot, hT', hget, hfd, if_true]
    have hno : ¬ T.Open hi := by
      rw [FdTable.Open, hfd]
      exact Bool.false_ne_true
    rw [hw]
    exact h.skip hle hno
  | some fd =>
    have hat : lo ≤ hi ∧ hi < hi + 1 ∧ T.Open hi :=
      ⟨hle, Nat.lt_succ_self hi, open_iff.mpr ⟨fd, hfd⟩⟩
    have hopened : T.openIn lo (hi + 1) = T.openIn lo hi ++ [fd] := by
      rw [openIn_succ T hle, hfd]
      rfl
    by_cases hflag : flags &&& 0x04 ≠ 0
    · have hw : closeRangeSlot tb flags w' hi = w'.setTable tb (T'.setCloexec hi true) := by
        simp only [closeRangeSlot, hT', hget, hfd]
        rw [if_neg (by simp), if_pos hflag]
      rw [decide_eq_true hflag] at h ⊢
      rw [hw, setCloexec_nat]
      refine h.change hT' rfl rfl (fun f hf => ⟨rfl, update_of_ne hf _ _⟩) ?_ h.refcount h.closed
      rw [SlotDone, if_pos hat]
      exact ⟨hsame, update_self _ _ _⟩
    · have hw : closeRangeSlot tb flags w' hi =
          (w'.fdClose fd).setTable tb ((T'.store hi none).setCloexec hi false) := by
        simp only [closeRangeSlot, fdtableClose, hT', hget, hfd]
        rw [if_neg (by simp), if_neg hflag]
      rw [decide_eq_false hflag] at h ⊢
      have hcount := fdClose_congr h.refcount h.closed fd
      rw [hw, store_nat, setCloexec_nat]
      have htables : ∀ T'', ((w'.fdClose fd).setTable tb T'').tables =
          update w'.tables tb (some T'') := fun T'' => by
        rw [setTable, tables_fdClose]
      refine h.change hT' (htables _) (List.length_set ..) (fun f hf => ?_) ?_ ?_ ?_
      · exact ⟨List.getElem?_set_ne (Ne.symm hf), update_of_ne hf _ _⟩
      · rw [SlotDone, if_pos hat]
        exact ⟨List.getElem?_set_self (hlen.symm ▸ hlt), update_self _ _ _⟩
      · rw [hopened, List.foldl_append]
        exact hcount.1
      · rw [hopened, List.foldl_append]
        exact hcount.2

/-! ### The whole range -/

lemma rangeDone_rounds (lo flags : ℕ) (hT : w.tables tb = some T) {n : ℕ}
    (hn : n = 0 ∨ lo + n ≤ T.files.length) :
    ∃ u, (List.range n).foldlM (fun u (i : ℕ) => closeRangeRound tb flags u ((lo : ℤ) + i)) w =
      some u ∧ RangeDone w tb T lo (lo + n) (decide (flags &&& 0x04 ≠ 0)) u := by
  induction n with
  | zero =>
    refine ⟨w, rfl, ⟨T, hT, rfl, fun f => ?_⟩, fun _ _ => rfl, ?_, ?_⟩
    · rw [SlotDone, if_neg (by omega)]
      exact ⟨rfl, rfl⟩
    · rw [Nat.add_zero, openIn_self]
      simp
    · rw [Nat.add_zero, openIn_self]
      simp
  | succ n ih =>
    obtain ⟨u, hu, hdone⟩ := ih (Or.inr (by omega))
    obtain ⟨u', hu', hdone'⟩ := hdone.step (Nat.le_add_right lo n) (by omega)
    refine ⟨u', ?_, hdone'⟩
    rw [List.range_succ, List.foldlM_append, hu]
    show Option.bind (some u) _ = _
    rw [Option.bind_some, List.foldlM_cons, ← Nat.cast_add, hu']
    rfl

lemma RangeDone.widen (h : RangeDone w tb T lo hi mark w') {hi' : ℕ} (hle : hi ≤ hi')
    (hlo : lo ≤ hi) (hno : ∀ f, hi ≤ f → f < hi' → ¬ T.Open f) :
    RangeDone w tb T lo hi' mark w' := by
  induction hi', hle using Nat.le_induction with
  | base => exact h
  | succ n hn ih =>
    have hdone := ih fun f hf hlt => hno f hf (Nat.lt_succ_of_lt hlt)
    exact hdone.skip (hlo.trans hn) (hno n hn (Nat.lt_succ_self n))

lemma asFdT_of_lt {f : ℕ} (h : f < 2 ^ 31) : asFdT f = f := if_pos h

lemma asFdT_neg {f : ℕ} (h : 2 ^ 31 ≤ f) (h' : f < 2 ^ 32) : asFdT f < 0 := by
  rw [asFdT, if_neg (not_lt.mpr h)]
  omega

lemma asFdT_mono {f g : ℕ} (h : 2 ^ 31 ≤ f) (hfg : f ≤ g) : asFdT f ≤ asFdT g := by
  rw [asFdT, asFdT, if_neg (not_lt.mpr h), if_neg (not_lt.mpr (h.trans hfg))]
  omega

lemma closeRange_of_lt (hT : w.tables tb = some T) (hlen : T.files.length < 2 ^ 31) {first last : ℕ}
    (hle : first ≤ last) (hlast : last < 2 ^ 31) (flags : ℕ) :
    ∃ u, w.closeRange tb T first last flags = some (u, 0) ∧
      RangeDone w tb T first (last + 1) (decide (flags &&& 0x04 ≠ 0)) u := by
  have hfirst : first < 2 ^ 31 := hle.trans_lt hlast
  rw [closeRange, if_neg (not_lt.mpr hle), asFdT_of_lt hfirst, asFdT_of_lt hlast, asFdT_of_lt hlen]
  have hcount : ((if (T.files.length : ℤ) ≤ (last : ℤ) then (T.files.length : ℤ) - 1
      else (last : ℤ)) + 1 - first).toNat = min (last + 1) T.files.length - first := by
    split_ifs <;> omega
  simp only [hcount]
  have hroom : min (last + 1) T.files.length - first = 0 ∨
      first + (min (last + 1) T.files.length - first) ≤ T.files.length := by omega
  obtain ⟨u, hu, hdone⟩ := rangeDone_rounds first flags hT hroom
  refine ⟨u, by rw [hu]; rfl, ?_⟩
  refine hdone.widen (by omega) (Nat.le_add_right _ _) fun f hf hflast hopen => ?_
  have hflen := lt_of_open hopen
  omega

lemma closeRange_of_ge (hlen : T.files.length < 2 ^ 31) {first last : ℕ} (hfirst : first < 2 ^ 31)
    (hle : first ≤ last) (hge : 2 ^ 31 ≤ last) (hlast : last < 2 ^ 32) (flags : ℕ) :
    w.closeRange tb T first last flags = some (w, 0) := by
  have hneg := asFdT_neg hge hlast
  have hlim : ¬ asFdT T.files.length ≤ asFdT last := by
    rw [asFdT_of_lt hlen]
    omega
  have hzero : (asFdT last + 1 - asFdT first).toNat = 0 := by
    rw [asFdT_of_lt hfirst]
    omega
  simp only [closeRange, if_neg (not_lt.mpr hle), if_neg hlim, hzero]
  rfl

/-- Two bounds that are negative as a `fd_t` make the first round read before the array. -/
lemma closeRange_outside (hT : w.tables tb = some T) (hlen : T.files.length < 2 ^ 31)
    {first last : ℕ} (hfirst : 2 ^ 31 ≤ first) (hle : first ≤ last) (hlast : last < 2 ^ 32)
    (flags : ℕ) : w.closeRange tb T first last flags = none := by
  have hneg := asFdT_neg (hfirst.trans hle) hlast
  have hneg' := asFdT_neg hfirst (hle.trans_lt hlast)
  have hmono := asFdT_mono hfirst hle
  have hlim : ¬ asFdT T.files.length ≤ asFdT last := by
    rw [asFdT_of_lt hlen]
    omega
  obtain ⟨n, hn⟩ : ∃ n, (asFdT last + 1 - asFdT first).toNat = n + 1 :=
    ⟨(asFdT last - asFdT first).toNat, by omega⟩
  have hround : closeRangeRound tb flags w (asFdT first + (0 : ℕ)) = none := by
    rw [closeRangeRound, hT, Option.bind_some, if_pos (Or.inl (by simpa using hneg'))]
  simp only [closeRange, if_neg (not_lt.mpr hle), if_neg hlim, hn, List.range_succ_eq_map,
    List.foldlM_cons, hround]
  rfl

/-- `sys_close_range` closes or marks what it is asked to exactly when its last number is not
negative as a `fd_t`, or there is nothing to do from the first one on. -/
theorem close_range_exact (hT : w.tables tb = some T) (hlen : T.files.length < 2 ^ 31)
    {first last : ℕ} (hle : first ≤ last) (hlast : last < 2 ^ 32) (flags : ℕ) :
    (∃ w', w.closeRange tb T first last flags = some (w', 0) ∧
      RangeDone w tb T first (last + 1) (decide (flags &&& 0x04 ≠ 0)) w') ↔
    last < 2 ^ 31 ∨ (first < 2 ^ 31 ∧
      ∀ f, first ≤ f → T.Open f → flags &&& 0x04 ≠ 0 ∧ T.cloexec f = true) := by
  rcases Nat.lt_or_ge last (2 ^ 31) with hlt | hge
  · exact iff_of_true (closeRange_of_lt hT hlen hle hlt flags) (Or.inl hlt)
  rw [or_iff_right (not_lt.mpr hge)]
  rcases Nat.lt_or_ge first (2 ^ 31) with hfirst | hfirst
  · rw [and_iff_right hfirst, closeRange_of_ge hlen hfirst hle hge hlast]
    constructor
    · rintro ⟨w', hw', hdone⟩ f hf hopen
      obtain rfl : w = w' := (Prod.mk.inj (Option.some.inj hw')).1
      obtain ⟨T', hT', -, hslot⟩ := hdone.table
      obtain rfl : T = T' := Option.some.inj (hT.symm.trans hT')
      have hflen := lt_of_open hopen
      have hs := hslot f
      rw [SlotDone, if_pos ⟨hf, by omega, hopen⟩] at hs
      by_cases hflag : flags &&& 0x04 ≠ 0
      · exact ⟨hflag, hs.2.trans (decide_eq_true hflag)⟩
      · rw [decide_eq_false hflag, if_neg Bool.false_ne_true] at hs
        rw [FdTable.Open, hs.1] at hopen
        cases hopen
    · intro hno
      refine ⟨w, rfl, ?_⟩
      by_cases hflag : flags &&& 0x04 ≠ 0
      · rw [decide_eq_true hflag]
        refine ⟨⟨T, hT, rfl, fun f => ?_⟩, fun _ _ => rfl, rfl, rfl⟩
        by_cases hf : first ≤ f ∧ f < last + 1 ∧ T.Open f
        · rw [SlotDone, if_pos hf]
          exact ⟨rfl, (hno f hf.1 hf.2.2).2⟩
        · rw [SlotDone, if_neg hf]
          exact ⟨rfl, rfl⟩
      · obtain ⟨u, hu, hdone⟩ := rangeDone_rounds first flags hT (Or.inl rfl)
        obtain rfl : w = u := Option.some.inj hu
        exact hdone.widen (by omega) le_rfl fun f hf _ hopen => hflag (hno f hf hopen).1
  · refine iff_of_false ?_ fun h => not_lt.mpr hfirst h.1
    rintro ⟨w', hw', -⟩
    rw [closeRange_outside hT hlen hfirst hle hlast] at hw'
    cases hw'

def threeOpen : FdTable := ⟨1, [some 0, some 1, some 2], fun _ => false⟩

def threeOpenWorld : FdWorld :=
  { (init 0 0).setTable 0 threeOpen with refcount := fun fd => if fd < 3 then some 1 else none }

/-- The last two of three are closed. -/
theorem close_range_exact_two :
    ∃ w', threeOpenWorld.closeRange 0 threeOpen 1 2 0 = some (w', 0) ∧
      RangeDone threeOpenWorld 0 threeOpen 1 3 false w' :=
  (close_range_exact rfl (by decide) (by decide) (by decide) 0).mpr (Or.inl (by decide))

/-- With the largest number as the last one nothing is closed. -/
theorem close_range_not_exact :
    ¬ ∃ w', threeOpenWorld.closeRange 0 threeOpen 1 (2 ^ 32 - 1) 0 = some (w', 0) ∧
      RangeDone threeOpenWorld 0 threeOpen 1 (2 ^ 32) false w' := by
  rintro ⟨w', hw', hdone⟩
  rw [closeRange_of_ge (by decide) (by decide) (by decide) (by decide) (by decide)] at hw'
  obtain rfl : threeOpenWorld = w' := (Prod.mk.inj (Option.some.inj hw')).1
  obtain ⟨T', hT', -, hslot⟩ := hdone.table
  obtain rfl : threeOpen = T' := Option.some.inj hT'
  have hs := hslot 1
  rw [SlotDone, if_pos (by decide)] at hs
  cases hs.1

end FdWorld

end ShellBox
