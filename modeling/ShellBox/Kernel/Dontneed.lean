import ShellBox.Kernel.Remap

/-!
# What `MADV_DONTNEED` discards

`sys_madvise` of `kernel/mmap.c` goes through a range page by page. A page that is mapped is set
to zero where `mem_ptr` grants a store, unless its memory belongs to a file. So a page is kept
that may not be written, whatever it is, and one that is shared is not told apart from a private
one.
-/

namespace ShellBox

open Function World

/-! ### One page -/

def World.pageByte (w : World) (k : ℕ × ℕ) (o : ℕ) : Option UInt8 :=
  (w.slot k).bind fun e => w.load { data := e.data, offset := e.offset + o }

def World.ZeroAt (w : World) (k : ℕ × ℕ) : Prop := ∀ o < pageSize, w.pageByte k o = some 0

/-- The loop sets the page to zero: it is mapped, not with the memory of a file, and a store to it
is granted. -/
def World.Erased (h : Host) (fileBacked : DataId → Bool) (s p : ℕ) (w : World) : Prop :=
  ∃ e, w.slot (s, ptIndex p) = some e ∧ (!e.flags.anonymous && fileBacked e.data) = false ∧
    e.flags.write = true ∧ (e.flags.cow = true → h.Grants p)

def World.SharedZero (w : World) (k : ℕ × ℕ) : Prop :=
  ∀ e, w.slot k = some e → e.flags.shared = true → w.ZeroAt k

variable {h : Host} {fileBacked : DataId → Bool} {s p q addr lo pages : ℕ} {w w' w₁ : World}

lemma storeBytes_mem (ptr : HostPtr) (bytes : List UInt8) :
    (w.storeBytes ptr bytes).mem = w.mem := by
  induction bytes generalizing w ptr with
  | nil => rfl
  | cons b rest ih => rw [World.storeBytes, ih, store_mem]

/-- What a store finds in the slot of a page, once `mem_ptr` has made the page ready. -/
structure ReadyEntry (h : Host) (w : World) (p : ℕ) (e e₁ : PtEntry) : Prop where
  prot : e₁.flags.prot = e.flags.prot
  shared : e₁.flags.shared = e.flags.shared
  copied : e.flags.cow = true → h.Grants p → e₁.data = w.nextData ∧ e₁.flags.cow = false
  same : ¬ (e.flags.cow = true ∧ h.Grants p) →
    e₁.data = e.data ∧ e₁.offset = e.offset ∧ e₁.flags.cow = e.flags.cow

lemma prepareWrite_ready {e : PtEntry} (hb : w.Balanced) (he : w.slot (s, ptIndex p) = some e)
    (hwrite : e.flags.write = true) :
    ∃ e₁, (prepareWrite h s p false w).2 = true ∧
      (prepareWrite h s p false w).1.slot (s, ptIndex p) = some e₁ ∧ ReadyEntry h w p e e₁ := by
  obtain ⟨f, hf, hslot, hnext⟩ : ∃ f : Flags, f = (if e.flags.code then e.flags &&& ~~~pCode
      else e.flags) ∧ (clearCode s p e.flags w).slot (s, ptIndex p) = some { e with flags := f } ∧
      (clearCode s p e.flags w).nextData = w.nextData := by
    unfold clearCode
    split_ifs
    · exact ⟨_, rfl, by rw [memChanged_slot, setFlags_slot, update_self, he, Option.map_some], rfl⟩
    · exact ⟨_, rfl, by rw [setFlags_slot, update_self, he, Option.map_some], rfl⟩
  have hprot : f.prot = e.flags.prot := by
    rw [hf]
    split_ifs <;> simp [Flags.prot, pCode]
  have hshared : f.shared = e.flags.shared := by
    rw [hf]
    split_ifs <;> simp [pCode]
  have hcow : f.cow = e.flags.cow := by
    rw [hf]
    split_ifs <;> simp [pCode]
  have hb' : (clearCode s p e.flags w).Balanced := by
    obtain ⟨-, -, -, -, hb'⟩ := clearCode_mapped hb he
    exact hb'
  have hcopy := copyForWrite_slot (h := h) hb' hslot
  have hpt : (w.mem s).pt.memPt p = some e := he
  unfold prepareWrite
  simp only [hpt, hwrite, Bool.not_true, Bool.not_false, Bool.and_false, Bool.false_eq_true,
    if_false, true_and]
  rw [hcopy, hcow, hnext]
  by_cases hgrants : (e.flags.cow && h.mmapOk p && h.dataOk p) = true
  · rw [if_pos hgrants, update_self]
    simp only [Bool.and_eq_true] at hgrants
    exact ⟨_, rfl, by simpa [Flags.prot, pCow] using hprot, by simpa [pCow] using hshared,
      fun _ _ => ⟨rfl, by simp [pCow]⟩,
      fun hno => absurd ⟨hgrants.1.1, hgrants.1.2, hgrants.2⟩ hno⟩
  · rw [if_neg hgrants, hslot]
    refine ⟨_, rfl, hprot, hshared, fun hc hg => ?_, fun _ => ⟨rfl, rfl, hcow⟩⟩
    simp [hc, hg.1, hg.2] at hgrants

lemma memPtr_write_ready {e : PtEntry} (hb : w.Balanced)
    (he : w.slot (s, ptIndex (page addr)) = some e) (hwrite : e.flags.write = true) :
    ∃ e₁, (memPtr h s addr .write w).1.slot (s, ptIndex (page addr)) = some e₁ ∧
      ReadyEntry h w (page addr) e e₁ ∧
      (memPtr h s addr .write w).2 =
        if e₁.flags.cow then none
        else some { data := e₁.data, offset := e₁.offset + pgoffset addr } := by
  obtain ⟨e₁, hok, hslot, hready⟩ := prepareWrite_ready (h := h) hb he hwrite
  have hwrite₁ : e₁.flags.write = true := by
    have := hready.prot
    rw [Flags.prot, Flags.prot, Prot.mk.injEq] at this
    exact this.2.1.trans hwrite
  refine ⟨e₁, ?_, hready, ?_⟩
  all_goals
    unfold memPtr
    rw [faultIn_mapped he]
    simp only [reduceCtorEq, if_false, decide_false]
    generalize prepareWrite h s (page addr) false w = r at hok hslot
    obtain ⟨w₁, ok⟩ := r
    obtain rfl : ok = true := hok
    simp only at hslot ⊢
  · exact hslot
  · simp [memPtrNofault, memPt_eq_slot, hslot, Flags.writable, hwrite₁]

lemma load_memPtr {k : ℕ × ℕ} {e e₁ : PtEntry} (hb : w.Balanced) (he : w.slot k = some e)
    (he₁ : (memPtr h s addr .write w).1.slot k = some e₁) (hdata : e₁.data = e.data) (o : ℕ) :
    (memPtr h s addr .write w).1.load { data := e.data, offset := o } =
      w.load { data := e.data, offset := o } := by
  obtain ⟨n, hs⟩ := steps_memPtr_any h s addr .write hb
  obtain ⟨x, hx⟩ := Option.isSome_iff_exists.mp ((hs.balanced hb).live he₁)
  rw [hdata] at hx
  obtain ⟨x₀, hx₀, hbytes⟩ := hs.bytes.2 e.data x (hb.lt_nextData he) hx
  simp [load, hx, hx₀, hbytes]

lemma reservedFlags_memPtr {e : PtEntry} {s' : ℕ} (he : w.slot (s, ptIndex (page addr)) = some e)
    (hq : s' = s → q ≠ page addr) :
    (memPtr h s addr .write w).1.reservedFlags s' q = w.reservedFlags s' q := by
  have hclear (f : Flags) : (clearCode s (page addr) f w).reservedFlags s' q =
      w.reservedFlags s' q := by
    unfold clearCode
    rcases eq_or_ne s' s with rfl | hs
    · split_ifs <;> simp [World.reservedFlags, World.memChanged, World.setFlags]
    · split_ifs
      · exact reservedFlags_congr (by simp [World.memChanged, World.setFlags, hs])
      · exact reservedFlags_congr (by simp [World.setFlags, hs])
  have hcopy (v : World) : (copyForWrite h s (page addr) v).reservedFlags s' q =
      v.reservedFlags s' q := by
    unfold copyForWrite
    cases (v.mem s).pt.memPt (page addr) with
    | none => rfl
    | some e =>
      simp only
      split_ifs
      · rw [World.reservedFlags, reservations_memChanged, ← World.reservedFlags,
          reservedFlags_ptMap h _ fun hs hrange => hq hs (by omega)]
        rfl
      · rw [World.reservedFlags, reservations_memChanged, ← World.reservedFlags,
          reservedFlags_ptMap h _ fun hs hrange => hq hs (by omega)]
      · rfl
  have hpt : (w.mem s).pt.memPt (page addr) = some e := he
  unfold memPtr
  rw [faultIn_mapped he]
  simp only [reduceCtorEq, if_false, decide_false, prepareWrite, hpt]
  split_ifs
  · rfl
  · exact (hcopy _).trans (hclear _)

/-- What one round of the loop has done with the page `p`. -/
structure PageDone (h : Host) (fileBacked : DataId → Bool) (s p : ℕ) (w w₁ : World) : Prop where
  valid : w₁.Valid
  slots : ∀ k, k ≠ (s, ptIndex p) → w₁.slot k = w.slot k
  prot : ∀ k, (w₁.slot k).map (·.flags.prot) = (w.slot k).map (·.flags.prot)
  reserved : ∀ s' q, w.slot (s', ptIndex q) = none → w₁.reservedFlags s' q = w.reservedFlags s' q
  erased : w.Erased h fileBacked s p → w₁.ZeroAt (s, ptIndex p)
  kept : ∀ k, (w.Erased h fileBacked s p →
      k ≠ (s, ptIndex p) ∧ (k.1 = s ∨ w.SharedZero (s, ptIndex p))) →
    ∀ o < pageSize, w₁.pageByte k o = w.pageByte k o

lemma PageDone.of_not_erased (hv : w.Valid) (hno : ¬ w.Erased h fileBacked s p) :
    PageDone h fileBacked s p w w where
  valid := hv
  slots _ _ := rfl
  prot _ := rfl
  reserved _ _ _ := rfl
  erased he := absurd he hno
  kept _ _ _ _ := rfl

lemma pageByte_zeroed {e e₁ : PtEntry} {k : ℕ × ℕ} {ptr : HostPtr} {zeros : List UInt8}
    (hv : w.Valid) (hlen : zeros.length = pageSize)
    (hget : ∀ o < pageSize, zeros[o]? = some 0) (he : w.slot (s, ptIndex (page addr)) = some e)
    (hptr : memPtr h s addr .write w = (w₁, some ptr))
    (he₁ : w₁.slot (s, ptIndex (page addr)) = some e₁) (hready : ReadyEntry h w (page addr) e e₁)
    (hcow : e₁.flags.cow = false) (hp : ptr = { data := e₁.data, offset := e₁.offset })
    (hk : k ≠ (s, ptIndex (page addr)))
    (hshared : k.1 = s ∨ w.SharedZero (s, ptIndex (page addr))) {o : ℕ} (ho : o < pageSize) :
    (w₁.storeBytes ptr zeros).pageByte k o = w.pageByte k o := by
  obtain rfl : (memPtr h s addr .write w).1 = w₁ := by rw [hptr]
  have hv₁ := valid_memPtr h s addr .write hv
  have hslot : (memPtr h s addr .write w).1.slot k = w.slot k :=
    memPtr_slots hv.balanced (K := {(s, ptIndex (page addr))})
      (by rw [faultIn_mapped he]; exact .refl _ w) rfl k hk
  unfold World.pageByte
  rw [storeBytes_slot, hslot]
  cases he' : w.slot k with
  | none => rfl
  | some e' =>
    have hload := load_memPtr hv.balanced he' (hslot.trans he') rfl (e'.offset + o)
    simp only [Option.bind_some]
    by_cases hover : e₁.Overlaps e'
    swap
    · -- the zeros are elsewhere
      rw [load_storeBytes_of_notMem, hload]
      intro hd
      rw [hp] at hd ⊢
      simp only [hlen]
      have hapart : ¬ (e₁.offset < e'.offset + pageSize ∧ e'.offset < e₁.offset + pageSize) :=
        fun hlt => hover ⟨hd.symm, hlt.1, hlt.2⟩
      omega
    obtain ⟨hidx, hoff, hlaw⟩ := hv₁.lawful _ _ e₁ e' hk.symm he₁ (hslot.trans he') hover
    have hboth : e₁.flags.shared = true ∧ e'.flags.shared = true := by
      rcases hlaw with ⟨hc, -⟩ | hboth
      · simp [hcow] at hc
      · exact hboth
    have hother : k.1 ≠ s := fun hs => hk (Prod.ext hs hidx.symm)
    have hzero := hshared.resolve_left hother e he (hready.shared ▸ hboth.1)
    -- a copy is memory that no other page has
    have hsame : e₁.data = e.data ∧ e₁.offset = e.offset := by
      by_cases hcopied : e.flags.cow = true ∧ h.Grants (page addr)
      · have hnew := (hready.copied hcopied.1 hcopied.2).1
        have hlt := hv.balanced.lt_nextData he'
        rw [← hover.1, hnew] at hlt
        exact absurd hlt (lt_irrefl _)
      · exact ⟨(hready.same hcopied).1, (hready.same hcopied).2.1⟩
    have hbefore : w.load { data := e'.data, offset := e'.offset + o } = some 0 := by
      have := hzero o ho
      rwa [World.pageByte, he, Option.bind_some, ← hsame.1, ← hsame.2, hoff, hover.1] at this
    rw [hbefore, ← hover.1, ← hoff]
    have hlive : ((memPtr h s addr .write w).1.data ptr.data).isSome := by
      rw [hp]
      exact hv₁.balanced.live he₁
    rw [hp] at hlive ⊢
    exact load_storeBytes hlive (hget o ho)

lemma dontneedPage_done {any : Bool} (hv : w.Valid) (haddr : pgoffset addr = 0) :
    PageDone h fileBacked s (page addr) w (dontneedPage h fileBacked s addr (w, any)).1 := by
  have hpt : (w.mem s).pt.memPt (page addr) = w.slot (s, ptIndex (page addr)) := rfl
  have hlen : (List.replicate pageSize (0 : UInt8)).length = pageSize := List.length_replicate
  have hget : ∀ o < pageSize, (List.replicate pageSize (0 : UInt8))[o]? = some 0 := fun o ho => by
    rw [List.getElem?_replicate, if_pos ho]
  unfold dontneedPage
  generalize List.replicate pageSize (0 : UInt8) = zeros at hlen hget ⊢
  simp only [hpt]
  cases he : w.slot (s, ptIndex (page addr)) with
  | none =>
    refine .of_not_erased hv ?_
    rintro ⟨e, he', -⟩
    rw [he] at he'
    cases he'
  | some e =>
    simp only
    by_cases hfile : (!e.flags.anonymous && fileBacked e.data) = true
    · rw [if_pos hfile]
      refine .of_not_erased hv ?_
      rintro ⟨e', he', hno, -⟩
      obtain rfl := Option.some.inj (he.symm.trans he')
      rw [hfile] at hno
      cases hno
    rw [if_neg hfile]
    by_cases hwrite : e.flags.write = true
    swap
    · rw [memPtr_write_refused h he (by simpa using hwrite)]
      refine .of_not_erased hv ?_
      rintro ⟨e', he', -, hyes, -⟩
      obtain rfl := Option.some.inj (he.symm.trans he')
      exact hwrite hyes
    obtain ⟨e₁, he₁, hready, hres⟩ := memPtr_write_ready (h := h) hv.balanced he hwrite
    have hv₁ := valid_memPtr h s addr .write hv
    have hslots : ∀ k, k ≠ (s, ptIndex (page addr)) →
        (memPtr h s addr .write w).1.slot k = w.slot k :=
      memPtr_slots hv.balanced (K := {(s, ptIndex (page addr))})
        (by rw [faultIn_mapped he]; exact .refl _ w) rfl
    have hprot : ∀ k, ((memPtr h s addr .write w).1.slot k).map (·.flags.prot) =
        (w.slot k).map (·.flags.prot) := by
      intro k
      by_cases hk : k = (s, ptIndex (page addr))
      · rw [hk, he₁, he, Option.map_some, Option.map_some, hready.prot]
      · rw [hslots k hk]
    have hreserved : ∀ s' q, w.slot (s', ptIndex q) = none →
        (memPtr h s addr .write w).1.reservedFlags s' q = w.reservedFlags s' q := by
      intro s' q hnone
      apply reservedFlags_memPtr he
      rintro rfl rfl
      rw [he] at hnone
      cases hnone
    have hload := fun (k : ℕ × ℕ) (e' e'' : PtEntry) (he' : w.slot k = some e') =>
      @load_memPtr h s addr w k e' e'' hv.balanced he'
    cases hptr : memPtr h s addr .write w with
    | mk w₁ r =>
    rw [hptr] at he₁ hv₁ hslots hprot hreserved hload hres
    simp only at he₁ hv₁ hslots hprot hreserved hload hres
    cases hcow : e₁.flags.cow with
    | true =>
      -- the host did not give the memory for the copy
      rw [hcow, if_pos rfl] at hres
      subst hres
      have hgrants : ¬ (e.flags.cow = true ∧ h.Grants (page addr)) := fun hyes => by
        rw [(hready.copied hyes.1 hyes.2).2] at hcow
        cases hcow
      obtain ⟨hdata, hoff, hc⟩ := hready.same hgrants
      have hno : ¬ w.Erased h fileBacked s (page addr) := by
        rintro ⟨e', he', -, -, hyes⟩
        obtain rfl := Option.some.inj (he.symm.trans he')
        exact hgrants ⟨hc ▸ hcow, hyes (hc ▸ hcow)⟩
      refine ⟨hv₁, hslots, hprot, hreserved, fun hyes => absurd hyes hno, fun k _ o _ => ?_⟩
      unfold World.pageByte
      by_cases hk : k = (s, ptIndex (page addr))
      · rw [hk, he₁, he, Option.bind_some, Option.bind_some, hdata, hoff]
        exact hload _ _ _ he he₁ hdata _
      · simp only [hslots k hk]
        cases he' : w.slot k with
        | none => rfl
        | some e' => exact hload _ _ _ he' ((hslots k hk).trans he') rfl _
    | false =>
      rw [hcow, if_neg (by decide), haddr, Nat.add_zero] at hres
      subst hres
      have hyes : w.Erased h fileBacked s (page addr) := by
        refine ⟨e, he, by simpa using hfile, hwrite, fun hc => ?_⟩
        by_contra hno
        rw [(hready.same fun hboth => hno hboth.2).2.2, hc] at hcow
        cases hcow
      have hvalid := valid_storeBytes { data := e₁.data, offset := e₁.offset } zeros hv₁
      refine ⟨hvalid, fun k hk => ?_, fun k => ?_,
        fun s' q hnone => (reservedFlags_congr (by rw [storeBytes_mem])).trans
          (hreserved s' q hnone),
        fun _ o ho => ?_, fun k hkeep o ho => ?_⟩
      · rw [storeBytes_slot]
        exact hslots k hk
      · rw [storeBytes_slot]
        exact hprot k
      · rw [World.pageByte, storeBytes_slot, he₁, Option.bind_some]
        exact load_storeBytes (hv₁.balanced.live he₁) (hget o ho)
      · obtain ⟨hk, hshared⟩ := hkeep hyes
        exact pageByte_zeroed hv hlen hget he hptr he₁ hready hcow rfl hk hshared ho

/-! ### A range of pages -/

/-- What the loop has done with the pages from `lo` on. -/
structure RangeDone (h : Host) (fileBacked : DataId → Bool) (s lo pages : ℕ) (w w' : World) :
    Prop where
  prot : ∀ k, (w'.slot k).map (·.flags.prot) = (w.slot k).map (·.flags.prot)
  reserved : ∀ s' q, w.slot (s', ptIndex q) = none → w'.reservedFlags s' q = w.reservedFlags s' q
  erased : ∀ q, lo ≤ q → q < lo + pages → w.Erased h fileBacked s q → w'.ZeroAt (s, ptIndex q)
  kept : ∀ k, (∀ q, lo ≤ q → q < lo + pages → w.Erased h fileBacked s q →
      k ≠ (s, ptIndex q) ∧ (k.1 = s ∨ w.SharedZero (s, ptIndex q))) →
    ∀ o < pageSize, w'.pageByte k o = w.pageByte k o

lemma RangeDone.none (w : World) (hno : ∀ q, lo ≤ q → q < lo + pages →
    ¬ w.Erased h fileBacked s q) : RangeDone h fileBacked s lo pages w w where
  prot _ := rfl
  reserved _ _ _ := rfl
  erased q hle hlt he := absurd he (hno q hle hlt)
  kept _ _ _ _ := rfl

lemma slot_none_iff (hprot : ∀ k, (w'.slot k).map (·.flags.prot) =
    (w.slot k).map (·.flags.prot)) (k : ℕ × ℕ) : w'.slot k = none ↔ w.slot k = none := by
  have := hprot k
  constructor <;> intro hnone
  · simpa [hnone, eq_comm] using this
  · simpa [hnone] using this

lemma PageDone.cons (hdone : PageDone h fileBacked s lo w w₁) (hpages : pages < memPages)
    (hrest : RangeDone h fileBacked s (lo + 1) pages w₁ w') :
    RangeDone h fileBacked s lo (pages + 1) w w' := by
  have hne : ∀ q, lo + 1 ≤ q → q < lo + 1 + pages → (s, ptIndex q) ≠ (s, ptIndex lo) :=
    fun q hle hlt heq => ptIndex_ne (show lo < q from hle) (by omega) (Prod.mk.inj heq).2.symm
  have herased : ∀ q, lo + 1 ≤ q → q < lo + 1 + pages →
      (w₁.Erased h fileBacked s q ↔ w.Erased h fileBacked s q) := by
    intro q hle hlt
    rw [World.Erased, hdone.slots _ (hne q hle hlt), World.Erased]
  refine ⟨fun k => (hrest.prot k).trans (hdone.prot k), fun s' q hnone => ?_,
    fun q hle hlt he => ?_, fun k hkeep o ho => ?_⟩
  · exact (hrest.reserved s' q ((slot_none_iff hdone.prot _).mpr hnone)).trans
      (hdone.reserved s' q hnone)
  · rcases Nat.eq_or_lt_of_le hle with rfl | hlo
    · intro o ho
      rw [hrest.kept _ (fun q hle hlt _ => ⟨(hne q hle hlt).symm, Or.inl rfl⟩) o ho]
      exact hdone.erased he o ho
    · exact hrest.erased q hlo (by omega) ((herased q hlo (by omega)).mpr he)
  · rw [hrest.kept k (fun q hle hlt he => ?_) o ho]
    · exact hdone.kept k (fun he => hkeep lo le_rfl (by omega) he) o ho
    · obtain ⟨hk, hshared⟩ := hkeep q (by omega) (by omega) ((herased q hle hlt).mp he)
      refine ⟨hk, hshared.imp id fun hzero e he' hsh o ho => ?_⟩
      rw [hdone.slots _ (hne q hle hlt)] at he'
      rw [hdone.kept _ (fun _ => ⟨hne q hle hlt, Or.inl rfl⟩) o ho]
      exact hzero e he' hsh o ho

lemma dontneedLoop_done {stop : ℕ} {any : Bool} (hv : w.Valid) (hpages : pages ≤ memPages)
    (haddr : pgoffset addr = 0) (hfits : addr + pages * pageSize < 2 ^ 64)
    (hlow : stop ≤ addr + pages * pageSize) (hhigh : addr + pages * pageSize < stop + pageSize) :
    ∃ w' any', dontneedLoop h fileBacked s stop pages addr (w, any) = some (w', any') ∧
      RangeDone h fileBacked s (page addr) pages w w' := by
  induction pages generalizing addr w any with
  | zero =>
    refine ⟨w, any, if_neg (by omega), .none w fun q hle hlt => absurd hlt (by omega)⟩
  | succ pages ih =>
    have hsize : pageSize = 4096 := rfl
    rw [Nat.succ_mul] at hfits hlow hhigh
    have hnext : (addr + pageSize) % 2 ^ 64 = addr + pageSize := Nat.mod_eq_of_lt (by omega)
    have hpage : page (addr + pageSize) = page addr + 1 := by
      unfold page pageSize
      omega
    have hoff : pgoffset (addr + pageSize) = 0 := by
      unfold pgoffset pageSize at *
      omega
    have hdone := @dontneedPage_done h fileBacked s addr w any hv haddr
    rw [dontneedLoop, if_pos (by omega), hnext]
    cases hround : dontneedPage h fileBacked s addr (w, any) with
    | mk w₁ any₁ =>
    rw [hround] at hdone
    obtain ⟨w', any', hloop, hrest⟩ :=
      @ih (addr + pageSize) w₁ any₁ hdone.valid (by omega) hoff (by omega) (by omega) (by omega)
    rw [hpage] at hrest
    exact ⟨w', any', hloop, hdone.cons (by omega) hrest⟩

lemma dontneedLoop_endless {stop : ℕ} {st : World × Bool} (hstop : 2 ^ 64 - pageSize < stop)
    (haddr : addr + pages * pageSize = 2 ^ 64) (hpos : 0 < pages) :
    dontneedLoop h fileBacked s stop pages addr st = none := by
  have hsize : pageSize = 4096 := rfl
  induction pages generalizing addr st with
  | zero => omega
  | succ pages ih =>
    rw [Nat.succ_mul] at haddr
    rw [dontneedLoop, if_pos (by omega)]
    rcases Nat.eq_zero_or_pos pages with rfl | hmore
    · rw [show addr + pageSize = 2 ^ 64 by omega, Nat.mod_self]
      exact if_pos (by omega)
    · have hle : pageSize ≤ pages * pageSize := Nat.le_mul_of_pos_left _ hmore
      rw [Nat.mod_eq_of_lt (by omega)]
      exact ih (by omega) hmore

/-! ### The call -/

def World.PrivateAnon (w : World) (s q : ℕ) : Prop :=
  match w.slot (s, ptIndex q) with
  | some e => e.flags.anonymous = true ∧ e.flags.shared = false
  | none => ∃ f, w.reservedFlags s q = some f ∧ f.anonymous = true ∧ f.shared = false

def World.ReadsZero (w : World) (s q : ℕ) : Prop :=
  ∀ o < pageSize, w.byteAt s (byteAddr q o) = some 0

/-- Exactly the private anonymous pages of a range have been discarded: they read as zero, and the
other pages of the range, shared ones among them, keep their bytes. The pages outside of it and
those of other processes are unchanged. -/
structure Discards (s : ℕ) (range : Set ℕ) (w w' : World) : Prop where
  zeroed : ∀ q ∈ range, w.PrivateAnon s q → w'.ReadsZero s q
  kept : ∀ q ∈ range, ¬ w.PrivateAnon s q →
    ∀ o < pageSize, w'.byteAt s (byteAddr q o) = w.byteAt s (byteAddr q o)
  outside : ∀ s' q, q < memPages → (s' = s → q ∉ range) → w'.protOf s' q = w.protOf s' q ∧
    ∀ o < pageSize, w'.byteAt s' (byteAddr q o) = w.byteAt s' (byteAddr q o)

/-- `madvise` with `MADV_DONTNEED`, and the state of the memory. -/
structure DontneedCall where
  fileBacked : DataId → Bool
  noDontneed : Bool
  addr : BitVec 64
  len : BitVec 32

namespace DontneedCall

def range (c : DontneedCall) : Set ℕ := pagesOf c.addr.toNat c.len.toNat

def DiscardsAnon (h : Host) (s : ℕ) (c : DontneedCall) (w : World) : Prop :=
  match sysMadvise h c.fileBacked c.noDontneed s c.addr.toNat c.len 4 w with
  | (w', some (.ok _)) => Discards s c.range w w'
  | _ => True

def Refused (s : ℕ) (c : DontneedCall) (w : World) : Prop :=
  pgoffset c.addr.toNat ≠ 0 ∨ ∃ q, page c.addr.toNat ≤ q ∧
    q < page c.addr.toNat + pageRoundUpDword c.len ∧ w.protOf s q = none

/-- The loop goes on behind the last address, and does not come to an end. -/
def Endless (c : DontneedCall) : Prop :=
  c.noDontneed = false ∧ 2 ^ 64 - pageSize < c.addr.toNat + c.len.toNat ∧
    c.addr.toNat + c.len.toNat < 2 ^ 64

def Visits (c : DontneedCall) : Prop :=
  c.noDontneed = false ∧ c.addr.toNat + c.len.toNat < 2 ^ 64

/-- A private anonymous page is set to zero or is zero, and another page that is set to zero is
zero. A page behind the table is another page. -/
structure PageFits (h : Host) (s : ℕ) (c : DontneedCall) (w : World) (q : ℕ) : Prop where
  anon : w.PrivateAnon s q →
    (c.Visits ∧ w.Erased h c.fileBacked s q ∧ q < memPages) ∨ w.ReadsZero s q
  erased : c.Visits → w.Erased h c.fileBacked s q →
    (w.PrivateAnon s q ∧ q < memPages) ∨ w.ReadsZero s q

/-- The call does not succeed, or every page of the range is one that it treats right. -/
def Fits (h : Host) (s : ℕ) (c : DontneedCall) (w : World) : Prop :=
  c.Refused s w ∨ c.Endless ∨ ∀ q ∈ c.range, c.PageFits h s w q

end DontneedCall

lemma byteAt_mapped {s' o : ℕ} {e : PtEntry} (he : w.slot (s', ptIndex q) = some e)
    (ho : o < pageSize) : w.byteAt s' (byteAddr q o) = w.pageByte (s', ptIndex q) o := by
  rw [World.byteAt, page_byteAddr ho, pgoffset_byteAddr ho, World.pageByte, he]
  rfl

lemma byteAt_unmapped {s' o : ℕ} (hnone : w.slot (s', ptIndex q) = none) (ho : o < pageSize) :
    w.byteAt s' (byteAddr q o) = (w.reservedFlags s' q).map fun _ => 0 := by
  rw [World.byteAt, page_byteAddr ho, hnone]

lemma World.Erased.readsZero (he : w.Erased h fileBacked s q) :
    w.ReadsZero s q ↔ w.ZeroAt (s, ptIndex q) := by
  obtain ⟨e, he, -⟩ := he
  refine forall_congr' fun o => forall_congr' fun ho => ?_
  rw [byteAt_mapped he ho]

lemma sharedZero_of_fits {c : DontneedCall} (hfits : c.PageFits h s w q) (hvisits : c.Visits)
    (he : w.Erased h c.fileBacked s q) : w.SharedZero (s, ptIndex q) := by
  intro e hslot hshared
  rcases hfits.erased hvisits he with ⟨hanon, -⟩ | hzero
  · have hprivate : e.flags.anonymous = true ∧ e.flags.shared = false := by
      rw [World.PrivateAnon, hslot] at hanon
      exact hanon
    rw [hshared] at hprivate
    cases hprivate.2
  · exact he.readsZero.mp hzero

namespace RangeDone

lemma byteAt {s' : ℕ} (hdone : RangeDone h fileBacked s lo pages w w')
    (hkept : ∀ q', lo ≤ q' → q' < lo + pages → w.Erased h fileBacked s q' →
      (s', ptIndex q) ≠ (s, ptIndex q') ∧ (s' = s ∨ w.SharedZero (s, ptIndex q')))
    {o : ℕ} (ho : o < pageSize) :
    w'.byteAt s' (byteAddr q o) = w.byteAt s' (byteAddr q o) := by
  cases he : w.slot (s', ptIndex q) with
  | none =>
    rw [byteAt_unmapped he ho, byteAt_unmapped ((slot_none_iff hdone.prot _).mpr he) ho,
      hdone.reserved s' q he]
  | some e =>
    obtain ⟨e', he'⟩ := Option.ne_none_iff_exists'.mp
      fun hnone => Option.some_ne_none e (he ▸ (slot_none_iff hdone.prot _).mp hnone)
    rw [byteAt_mapped he ho, byteAt_mapped he' ho]
    exact hdone.kept _ hkept o ho

lemma readsZero (hdone : RangeDone h fileBacked s lo pages w w') (hle : lo ≤ q)
    (hlt : q < lo + pages) (he : w.Erased h fileBacked s q) : w'.ReadsZero s q := by
  intro o ho
  obtain ⟨e, hslot, -⟩ := id he
  obtain ⟨e', he'⟩ := Option.ne_none_iff_exists'.mp
    fun hnone => Option.some_ne_none e (hslot ▸ (slot_none_iff hdone.prot _).mp hnone)
  rw [byteAt_mapped he' ho]
  exact hdone.erased q hle hlt he o ho

lemma protOf (hdone : RangeDone h fileBacked s lo pages w w') (s' q : ℕ) :
    w'.protOf s' q = w.protOf s' q := by
  have hprot := hdone.prot (s', ptIndex q)
  cases he : w.slot (s', ptIndex q) with
  | none =>
    rw [World.protOf, World.protOf, he, (slot_none_iff hdone.prot _).mpr he,
      hdone.reserved s' q he]
  | some e =>
    obtain ⟨e', he'⟩ := Option.ne_none_iff_exists'.mp
      fun hnone => Option.some_ne_none e (he ▸ (slot_none_iff hdone.prot _).mp hnone)
    rw [he, he'] at hprot
    rw [protOf_mapped he, protOf_mapped he']
    exact hprot

lemma memChanged (hdone : RangeDone h fileBacked s lo pages w w') :
    RangeDone h fileBacked s lo pages w (w'.memChanged s) where
  prot k := by rw [memChanged_slot, hdone.prot]
  reserved s' q hnone := by
    rw [World.reservedFlags, reservations_memChanged, ← World.reservedFlags,
      hdone.reserved s' q hnone]
  erased q hle hlt he o ho := by
    rw [World.pageByte, memChanged_slot]
    exact hdone.erased q hle hlt he o ho
  kept k hk o ho := by
    rw [World.pageByte, memChanged_slot]
    exact hdone.kept k hk o ho

lemma readsZero_alias {q' : ℕ} (hdone : RangeDone h fileBacked s lo pages w w') (hle : lo ≤ q')
    (hlt : q' < lo + pages) (he : w.Erased h fileBacked s q') (hq : ptIndex q = ptIndex q') :
    w'.ReadsZero s q ∧ (w.ReadsZero s q ↔ w.ReadsZero s q') := by
  obtain ⟨e, hslot, -⟩ := id he
  obtain ⟨e', he'⟩ := Option.ne_none_iff_exists'.mp
    fun hnone => Option.some_ne_none e (hslot ▸ (slot_none_iff hdone.prot _).mp hnone)
  refine ⟨fun o ho => ?_, forall_congr' fun o => forall_congr' fun ho => ?_⟩
  · rw [byteAt_mapped (hq ▸ he') ho, hq]
    exact hdone.erased q' hle hlt he o ho
  · rw [byteAt_mapped (hq ▸ hslot) ho, byteAt_mapped hslot ho, hq]

end RangeDone

namespace DontneedCall

variable {c : DontneedCall}

def pageCount (c : DontneedCall) : ℕ := pageRoundUp c.len.toNat

lemma pageCount_eq (c : DontneedCall) : c.pageCount = (c.len.toNat + 4095) / 4096 := by
  have := c.len.isLt
  unfold pageCount pageRoundUp page pageSize
  rw [Nat.mod_eq_of_lt (by omega)]
  rfl

lemma pageCount_le (c : DontneedCall) : c.pageCount ≤ 2 ^ 20 := by
  have := c.len.isLt
  rw [pageCount_eq]
  omega

lemma mem_range (haddr : pgoffset c.addr.toNat = 0) {q : ℕ} :
    q ∈ c.range ↔ page c.addr.toNat ≤ q ∧ q < page c.addr.toNat + c.pageCount := by
  rw [range, mem_pagesOf haddr, pageCount_eq, pageSize]
  omega

lemma alias_notMem (haddr : pgoffset c.addr.toNat = 0) {q : ℕ} (hq : q ∈ c.range)
    (hmem : memPages ≤ q) : ptIndex q ∉ c.range := by
  have hpages := c.pageCount_le
  rw [mem_range haddr] at hq ⊢
  have := ptIndex_lt_start hq.1 (by omega) hmem
  omega

lemma slot_ne (haddr : pgoffset c.addr.toNat = 0) {q q' : ℕ} (hq : q ∈ c.range)
    (hq' : q' ∈ c.range) (hne : q ≠ q') : (s, ptIndex q) ≠ (s, ptIndex q') := by
  have hpages := c.pageCount_le
  have hmem : memPages = 2 ^ 36 := rfl
  rw [mem_range haddr] at hq hq'
  rintro heq
  rcases Nat.lt_or_gt_of_ne hne with hlt | hgt
  · exact ptIndex_ne hlt (by omega) (Prod.mk.inj heq).2
  · exact ptIndex_ne hgt (by omega) (Prod.mk.inj heq).2.symm

lemma discards_unvisited (hno : ¬ c.Visits) :
    Discards s c.range w w ↔ ∀ q ∈ c.range, c.PageFits h s w q := by
  constructor
  · intro hd q hq
    exact ⟨fun hanon => Or.inr (hd.zeroed q hq hanon), fun hvisits => absurd hvisits hno⟩
  · intro hfits
    refine ⟨fun q hq hanon => ?_, fun _ _ _ _ _ => rfl, fun _ _ _ _ => ⟨rfl, fun _ _ => rfl⟩⟩
    exact ((hfits q hq).anon hanon).resolve_left fun hyes => hno hyes.1

lemma discards_visited (haddr : pgoffset c.addr.toNat = 0) (hvisits : c.Visits)
    (hdone : RangeDone h c.fileBacked s (page c.addr.toNat) c.pageCount w w') :
    Discards s c.range w w' ↔ ∀ q ∈ c.range, c.PageFits h s w q := by
  have hsame : ∀ q ∈ c.range, ¬ w.Erased h c.fileBacked s q → ∀ o < pageSize,
      w'.byteAt s (byteAddr q o) = w.byteAt s (byteAddr q o) := by
    intro q hq hno o ho
    refine hdone.byteAt (fun q' hle hlt he => ⟨?_, Or.inl rfl⟩) ho
    refine slot_ne haddr hq ((mem_range haddr).mpr ⟨hle, hlt⟩) ?_
    rintro rfl
    exact hno he
  have hzeroed : ∀ q ∈ c.range, w.Erased h c.fileBacked s q → w'.ReadsZero s q :=
    fun q hq he => hdone.readsZero ((mem_range haddr).mp hq).1 ((mem_range haddr).mp hq).2 he
  constructor
  · intro hd q hq
    have hbehind : memPages ≤ q → w.Erased h c.fileBacked s q → w.ReadsZero s q := by
      intro hmem he
      have hindex : ptIndex (ptIndex q) = ptIndex q := ptIndex_of_lt (ptIndex_lt q)
      obtain ⟨hzero, hiff⟩ := hdone.readsZero_alias ((mem_range haddr).mp hq).1
        ((mem_range haddr).mp hq).2 he hindex
      refine hiff.mp fun o ho => ?_
      rw [← (hd.outside s (ptIndex q) (ptIndex_lt q) fun _ => alias_notMem haddr hq hmem).2 o ho]
      exact hzero o ho
    refine ⟨fun hanon => ?_, fun _ he => ?_⟩
    · by_cases he : w.Erased h c.fileBacked s q
      · rcases Nat.lt_or_ge q memPages with hmem | hmem
        · exact Or.inl ⟨hvisits, he, hmem⟩
        · exact Or.inr (hbehind hmem he)
      · refine Or.inr fun o ho => ?_
        rw [← hsame q hq he o ho]
        exact hd.zeroed q hq hanon o ho
    · by_cases hanon : w.PrivateAnon s q
      · rcases Nat.lt_or_ge q memPages with hmem | hmem
        · exact Or.inl ⟨hanon, hmem⟩
        · exact Or.inr (hbehind hmem he)
      · refine Or.inr fun o ho => ?_
        rw [← hd.kept q hq hanon o ho]
        exact hzeroed q hq he o ho
  · intro hfits
    refine ⟨fun q hq hanon => ?_, fun q hq hanon o ho => ?_, fun s' q hmem hout =>
      ⟨hdone.protOf s' q, fun o ho => ?_⟩⟩
    · by_cases he : w.Erased h c.fileBacked s q
      · exact hzeroed q hq he
      · have hzero := ((hfits q hq).anon hanon).resolve_left fun hyes => he hyes.2.1
        intro o ho
        rw [hsame q hq he o ho]
        exact hzero o ho
    · by_cases he : w.Erased h c.fileBacked s q
      · have hzero := ((hfits q hq).erased hvisits he).resolve_left fun hyes => hanon hyes.1
        rw [hzeroed q hq he o ho, hzero o ho]
      · exact hsame q hq he o ho
    · by_cases hhit : s' = s ∧ ∃ q' ∈ c.range, w.Erased h c.fileBacked s q' ∧
          ptIndex q = ptIndex q'
      · -- the page is one behind the table
        obtain ⟨rfl, q', hq', he, hindex⟩ := hhit
        have hbehind : memPages ≤ q' := by
          by_contra hlt
          rw [ptIndex_of_lt hmem, ptIndex_of_lt (not_le.mp hlt)] at hindex
          exact hout rfl (hindex ▸ hq')
        have hzero := ((hfits q' hq').erased hvisits he).resolve_left
          fun hyes => absurd hyes.2 hbehind.not_gt
        obtain ⟨hafter, hiff⟩ := hdone.readsZero_alias ((mem_range haddr).mp hq').1
          ((mem_range haddr).mp hq').2 he hindex
        rw [hafter o ho, hiff.mpr hzero o ho]
      · refine hdone.byteAt (fun q' hle hlt he => ⟨fun heq => ?_, ?_⟩) ho
        · exact hhit ⟨(Prod.mk.inj heq).1, q', (mem_range haddr).mpr ⟨hle, hlt⟩, he,
            (Prod.mk.inj heq).2⟩
        · exact Or.inr (sharedZero_of_fits (hfits q' ((mem_range haddr).mpr ⟨hle, hlt⟩)) hvisits he)

lemma protOf_ne_none (w : World) (s q : ℕ) : w.protOf s q ≠ none ↔
    (isMapped w s q || (memFindReservation (w.mem s).reservations q).isSome) = true := by
  rw [World.protOf, isMapped_eq_slot, World.reservedFlags]
  cases w.slot (s, ptIndex q) with
  | none => cases memFindReservation (w.mem s).reservations q <;> simp
  | some e => simp

lemma sysMadvise_checked (hno : ¬ c.Refused s w) :
    sysMadvise h c.fileBacked c.noDontneed s c.addr.toNat c.len 4 w =
      if c.noDontneed then (w, some (.ok 0))
      else
        match dontneedLoop h c.fileBacked s ((c.addr.toNat + c.len.toNat) % 2 ^ 64) c.pageCount
            c.addr.toNat (w, false) with
        | none => (w, none)
        | some (w, any) => (if any then w.memChanged s else w, some (.ok 0)) := by
  obtain ⟨haddr, hpages⟩ := not_or.mp hno
  have hall : allPages (fun page => isMapped w s page ||
      (memFindReservation (w.mem s).reservations page).isSome) (page c.addr.toNat)
      (pageRoundUpDword c.len) = true :=
    allPages_iff.mpr fun q hle hlt => (protOf_ne_none w s q).mp
      fun hnone => hpages ⟨q, hle, hlt, hnone⟩
  rw [sysMadvise, if_neg haddr, hall, if_neg (by decide), if_neg (by decide)]
  cases c.noDontneed with
  | true => rfl
  | false => rfl

lemma sysMadvise_refused (hc : c.Refused s w) :
    ∃ e, sysMadvise h c.fileBacked c.noDontneed s c.addr.toNat c.len 4 w =
      (w, some (.error e)) := by
  by_cases haddr : pgoffset c.addr.toNat ≠ 0
  · exact ⟨_, if_pos haddr⟩
  obtain ⟨q, hle, hlt, hnone⟩ := hc.resolve_left haddr
  refine ⟨.enomem, ?_⟩
  rw [sysMadvise, if_neg haddr, if_pos]
  rw [Bool.not_eq_true', ← Bool.not_eq_true, allPages_iff]
  exact fun hall => (protOf_ne_none w s q).mpr (hall q hle hlt) hnone

/-- Exactly when `MADV_DONTNEED` discards the private anonymous pages of its range and nothing else:
when each of these is writable, or zero already, and the pages that are set to zero besides are
zero already. -/
theorem dontneed_discards_iff (hv : w.Valid) (c : DontneedCall) :
    c.DiscardsAnon h s w ↔ c.Fits h s w := by
  by_cases hrefused : c.Refused s w
  · obtain ⟨e, he⟩ := @sysMadvise_refused h s w c hrefused
    refine iff_of_true ?_ (Or.inl hrefused)
    rw [DiscardsAnon, he]
    trivial
  have haddr : pgoffset c.addr.toNat = 0 := not_not.mp (not_or.mp hrefused).1
  have hbound := c.addr.isLt
  have hlen := c.len.isLt
  have hpages := c.pageCount_eq
  have hsize : pageSize = 4096 := rfl
  have hbytes : c.pageCount * pageSize = (c.len.toNat + 4095) / 4096 * 4096 := by rw [hpages, hsize]
  have hmul : c.addr.toNat % 4096 = 0 := haddr
  rw [DiscardsAnon, sysMadvise_checked hrefused, Fits]
  simp only [hrefused, false_or]
  cases hsetting : c.noDontneed with
  | true =>
    have hends : ¬ c.Endless := fun hyes => by simp [hyes.1] at hsetting
    have hvisits : ¬ c.Visits := fun hyes => by simp [hyes.1] at hsetting
    simp only [if_true, hends, false_or]
    exact discards_unvisited hvisits
  | false =>
    simp only [Bool.false_eq_true, if_false]
    rcases Nat.lt_or_ge (c.addr.toNat + c.len.toNat) (2 ^ 64) with hlt | hover
    · rw [Nat.mod_eq_of_lt hlt]
      by_cases hlast : 2 ^ 64 - pageSize < c.addr.toNat + c.len.toNat
      · rw [dontneedLoop_endless hlast (by omega) (by omega)]
        exact iff_of_true trivial (Or.inl ⟨hsetting, hlast, hlt⟩)
      · have hends : ¬ c.Endless := fun hyes => hlast hyes.2.1
        obtain ⟨w', any, hloop, hdone⟩ := @dontneedLoop_done h c.fileBacked s c.addr.toNat
          c.pageCount w (c.addr.toNat + c.len.toNat) false hv (c.pageCount_le.trans (by decide))
          haddr (by omega) (by omega) (by omega)
        rw [hloop]
        simp only [hends, false_or]
        cases any with
        | true => exact discards_visited haddr ⟨hsetting, hlt⟩ hdone.memChanged
        | false => exact discards_visited haddr ⟨hsetting, hlt⟩ hdone
    · -- the end of the range is in front of its start
      have hends : ¬ c.Endless := fun hyes => absurd hyes.2.2 hover.not_gt
      have hvisits : ¬ c.Visits := fun hyes => absurd hyes.2 hover.not_gt
      have hloop : dontneedLoop h c.fileBacked s ((c.addr.toNat + c.len.toNat) % 2 ^ 64) c.pageCount
          c.addr.toNat (w, false) = some (w, false) := by
        cases c.pageCount <;> exact if_neg (by omega)
      rw [hloop]
      simp only [hends, false_or]
      exact discards_unvisited hvisits

lemma pageFive_fits : 5 + 1 ≤ memPages := by decide

lemma pWrite_isMapFlags : pWrite.IsMapFlags := fun _ => rfl

/-- A page from `0x5000` on, with an `a` at its start. -/
def dirtyPage : World :=
  run MemOp.step World.init
    [({}, .mapNothing 0 ⟨5, 1, pageFive_fits⟩ ⟨pWrite, pWrite_isMapFlags⟩),
      ({}, .write 0 0x5000 97)]

def readOnlyPage : World := MemOp.step dirtyPage ({}, .setFlags 0 5 1 ⟨true, false, false⟩)

def onePageCall : DontneedCall := ⟨fun _ => false, false, 0x5000, 4096⟩

/-- A writable page is discarded. -/
theorem dontneed_discards_dirty : onePageCall.DiscardsAnon {} 0 dirtyPage := by
  refine (dontneed_discards_iff (MemOp.valid_run _ World.valid_init) _).mpr
    (Or.inr (Or.inr fun q hq => ?_))
  obtain rfl : q = 5 := by
    have hrange := (mem_range (c := onePageCall) rfl).mp hq
    rw [pageCount_eq] at hrange
    exact le_antisymm (Nat.lt_succ_iff.mp hrange.2) hrange.1
  obtain ⟨e, he, hflags⟩ : ∃ e, dirtyPage.slot (0, ptIndex 5) = some e ∧
      e.flags = pWrite ||| pAnonymous := ⟨_, rfl, rfl⟩
  have hanon : dirtyPage.PrivateAnon 0 5 := by
    rw [World.PrivateAnon, he]
    simp [hflags, pWrite, pAnonymous]
  have herased : dirtyPage.Erased {} onePageCall.fileBacked 0 5 :=
    ⟨e, he, by simp [onePageCall], by simp [hflags, pWrite], fun _ => ⟨rfl, rfl⟩⟩
  have hvisits : onePageCall.Visits := ⟨rfl, by decide⟩
  exact ⟨fun _ => Or.inl ⟨hvisits, herased, by decide⟩, fun _ _ => Or.inl ⟨hanon, by decide⟩⟩

/-- A page that may only be read keeps its bytes. -/
theorem dontneed_keeps_readOnly : ¬ onePageCall.DiscardsAnon {} 0 readOnlyPage := by
  obtain ⟨w, hw⟩ : ∃ w, w = (sysMadvise {} onePageCall.fileBacked onePageCall.noDontneed 0
    onePageCall.addr.toNat onePageCall.len 4 readOnlyPage).1 := ⟨_, rfl⟩
  have hrun : sysMadvise {} onePageCall.fileBacked onePageCall.noDontneed 0
      onePageCall.addr.toNat onePageCall.len 4 readOnlyPage = (w, some (.ok 0)) := by
    rw [hw]
    rfl
  have hbyte : w.byteAt 0 (byteAddr 5 0) = some 97 := by
    rw [hw]
    decide +kernel
  have hanon : readOnlyPage.PrivateAnon 0 5 := ⟨rfl, rfl⟩
  intro hd
  rw [DiscardsAnon, hrun] at hd
  have hzero := hd.zeroed 5 ⟨by decide, by decide⟩ hanon 0 (by decide)
  rw [hbyte] at hzero
  cases hzero

end DontneedCall

end ShellBox
