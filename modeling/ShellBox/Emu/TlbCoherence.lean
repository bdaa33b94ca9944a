import ShellBox.Emu.Tlb
import ShellBox.Kernel.Memory.Changes

/-!
# TLB coherence

What a hit accepts is the current translation of its page, and an entry for stores is one for
a page that may be stored to. A miss may see the page table change under it: what it has read
is stamped with the change count it loaded first, and the second load of the count tells
whether the stamp is still good. The exit after nine attempts stamps anew instead.
-/

namespace ShellBox

open Function World

variable {w w' : World} {h : Host} {s : ℕ} {t : Tlb} {m : Miss} {st : TlbState}

/-- The page of an address is mapped to the host page; for stores, it may be stored to. -/
def Translates (s addr : ℕ) (host : HostPtr) (write : Prop) (w : World) : Prop :=
  ∃ e, (w.mem s).pt.memPt (page addr) = some e ∧ host = { data := e.data, offset := e.offset } ∧
    (write → e.flags.writable = true ∧ e.flags.code = false)

def NotCode (s addr : ℕ) (w : World) : Prop :=
  ∃ e, (w.mem s).pt.memPt (page addr) = some e ∧ e.flags.code = false

/-- A page that a store may go to without `mem_ptr`. -/
def TlbState.Storable (s addr : ℕ) (st : TlbState) : Prop :=
  ∃ e, (st.world.mem s).pt.memPt (page addr) = some e ∧ e.flags.writable = true ∧
    ¬ (e.flags.code = true ∧ page addr ∈ st.compiled)

/-- Every hit is with the current translation, and the entry it accepts is for stores only if
the page may be stored to. -/
structure TlbState.Coherent (s : ℕ) (st : TlbState) : Prop where
  read : ∀ addr p, st.tlb.readHit (changes s st.world) addr = some p →
    memPtrNofault st.world s addr .read = some p ∧
      ((st.tlb.entries (tlbIndex addr)).pageIfWritable ≠ tlbPageEmpty → st.Storable s addr)
  write : ∀ addr p, st.tlb.writeHit (changes s st.world) addr = some p →
    memPtrNofault st.world s addr .write = some p ∧ st.Storable s addr

/-! ### Pages -/

lemma pgoffset_tlbPage (addr : ℕ) : pgoffset (tlbPage addr) = 0 := Nat.mul_mod_left _ _

lemma tlbPage_ne_empty (addr : ℕ) : tlbPage addr ≠ tlbPageEmpty := by
  intro heq
  have hmod := (pgoffset_tlbPage addr).symm.trans (congrArg pgoffset heq)
  exact absurd hmod (by decide)

/-! ### Stamped facts under other threads -/

lemma Translates.serves {addr : ℕ} {host : HostPtr} {write : Prop} (hserves : Serves s w w')
    (h : Translates s addr host write w) : Translates s addr host write w' := by
  obtain ⟨e, he, rfl, hwrite⟩ := h
  obtain ⟨e', he', hs⟩ := hserves _ e he
  refine ⟨e', he', by rw [hs.data, hs.offset], fun hw => ?_⟩
  obtain ⟨hwritable, hcode⟩ := hwrite hw
  simp only [Flags.writable, Bool.and_eq_true, Bool.not_eq_true'] at hwritable ⊢
  exact ⟨⟨hs.write hwritable.1, hs.cow hwritable.2⟩, hs.code hcode⟩

lemma NotCode.serves {addr : ℕ} (hserves : Serves s w w') (h : NotCode s addr w) :
    NotCode s addr w' := by
  obtain ⟨e, he, hcode⟩ := h
  obtain ⟨e', he', hs⟩ := hserves _ e he
  exact ⟨e', he', hs.code hcode⟩

structure EntryOk (s : ℕ) (w : World) (e : TlbEntry) : Prop where
  writable : e.pageIfWritable = tlbPageEmpty ∨ e.pageIfWritable = e.page
  stamped : Stamped (changes s) e.gen (fun w => e.page ≠ tlbPageEmpty →
    Translates s e.page e.host (e.pageIfWritable ≠ tlbPageEmpty) w) w

lemma EntryOk.kept {e : TlbEntry} (he : EntryOk s w e) (hk : Kept s w w') : EntryOk s w' e where
  writable := he.writable
  stamped := he.stamped.step hk fun hserves hfact hpage => (hfact hpage).serves hserves

lemma entryOk_empty (s : ℕ) (w : World) : EntryOk s w .empty where
  writable := Or.inl rfl
  stamped := .of_fact (Nat.zero_le _) fun hpage => absurd rfl hpage

/-- What a pending miss knows, by where it is. Without giving up it never accepts a translation
that was overtaken. -/
def PhaseOk (s : ℕ) (m : Miss) (w : World) : MissPhase → Prop
  | .load => True
  | .lookup gen | .grow gen _ | .reserve gen _ | .prepare gen => gen ≤ changes s w
  | .copy gen | .nofault gen =>
    gen ≤ changes s w ∧ (m.write = true → Stamped (changes s) gen (NotCode s m.addr) w)
  | .recheck gen ptr | .stamp gen ptr => Stamped (changes s) gen
      (fun w => ∀ p, ptr = some p → Translates s m.addr p (m.write = true) w) w
  | .giveUp _ => False
  | .probe gen ptr isCode => Stamped (changes s) gen (fun w => Translates s m.addr ptr False w ∧
      (isCode = false → NotCode s m.addr w)) w

lemma PhaseOk.kept {phase : MissPhase} (hp : PhaseOk s m w phase) (hk : Kept s w w') :
    PhaseOk s m w' phase := by
  cases phase with
  | load => trivial
  | lookup gen => exact hp.trans hk.le
  | grow gen p => exact Nat.le_trans hp hk.le
  | reserve gen flags => exact Nat.le_trans hp hk.le
  | prepare gen => exact Nat.le_trans hp hk.le
  | copy gen =>
    exact ⟨hp.1.trans hk.le, fun hw => (hp.2 hw).step hk fun hserves => .serves hserves⟩
  | nofault gen =>
    exact ⟨hp.1.trans hk.le, fun hw => (hp.2 hw).step hk fun hserves => .serves hserves⟩
  | recheck gen ptr =>
    exact hp.step hk fun hserves hfact p hptr => (hfact p hptr).serves hserves
  | stamp gen ptr =>
    exact hp.step hk fun hserves hfact p hptr => (hfact p hptr).serves hserves
  | giveUp ptr => exact hp
  | probe gen ptr isCode =>
    exact hp.step hk fun hserves hfact =>
      ⟨hfact.1.serves hserves, fun hcode => (hfact.2 hcode).serves hserves⟩

/-! ### The steps of a miss -/

/-- The next step accepts a translation that was overtaken, after nine attempts. -/
def Miss.GivesUp (s : ℕ) (w : World) (m : Miss) : Prop :=
  ∃ gen ptr, m.phase = .recheck gen ptr ∧ changes s w ≠ gen ∧ 8 ≤ m.attempt

structure StepOk (s : ℕ) (w : World) (r : World × Tlb × Option Miss) : Prop where
  kept : Kept s w r.1
  entry : ∀ i, EntryOk s r.1 (r.2.1.entries i)
  miss : ∀ m, r.2.2 = some m → PhaseOk s m r.1 m.phase

lemma StepOk.goto {t' : Tlb} {m' : Miss} (hent : ∀ i, EntryOk s w (t'.entries i))
    (hk : Kept s w w') (hm : PhaseOk s m' w' m'.phase) : StepOk s w (w', t', some m') where
  kept := hk
  entry i := (hent i).kept hk
  miss _ hm' := Option.some.inj hm' ▸ hm

lemma StepOk.haveEntry {gen : ℕ} (hent : ∀ i, EntryOk s w (t.entries i)) (hk : Kept s w w')
    (hgen : gen ≤ changes s w') : StepOk s w (w', t, m.haveEntry gen) := by
  obtain ⟨addr, write, attempt, phase⟩ := m
  cases write with
  | false => exact .goto hent hk ⟨hgen, fun hw => absurd hw Bool.false_ne_true⟩
  | true => exact .goto hent hk hgen

lemma entryOk_flush {gen : ℕ} (t : Tlb) (i : ℕ) : EntryOk s w ((t.flush gen).entries i) :=
  entryOk_empty s w

lemma entryOk_fill {addr gen : ℕ} {ptr : HostPtr} {writable : Bool}
    (hent : ∀ i, EntryOk s w (t.entries i))
    (hptr : Stamped (changes s) gen (Translates s addr ptr (writable = true)) w) (i : ℕ) :
    EntryOk s w ((t.fill addr gen ptr writable).entries i) := by
  simp only [Tlb.fill]
  by_cases hi : i = tlbIndex addr
  swap
  · rw [update_of_ne hi]
    exact hent i
  subst hi
  rw [update_self]
  constructor
  · cases writable with
    | false => exact Or.inl rfl
    | true => exact Or.inr rfl
  · refine hptr.imp ?_
    rintro ⟨e, he, hhost, hwrite⟩ -
    refine ⟨e, by rwa [page_tlbPage], hhost, fun hne => hwrite ?_⟩
    cases writable with
    | false => exact absurd rfl hne
    | true => rfl

lemma translates_of_nofault {addr : ℕ} {p : HostPtr} {write : Bool}
    (hp : memPtrNofault w s (tlbPage addr) (if write then .write else .read) = some p)
    (hcode : write = true → NotCode s addr w) : Translates s addr p (write = true) w := by
  unfold memPtrNofault at hp
  rw [page_tlbPage, pgoffset_tlbPage] at hp
  cases he : (w.mem s).pt.memPt (page addr) with
  | none => simp [he] at hp
  | some e =>
    simp only [he] at hp
    split_ifs at hp with hwrite hdeny hdeny
    all_goals obtain rfl := Option.some.inj hp
    · refine ⟨e, he, rfl, fun hw => ⟨by simpa using hdeny, ?_⟩⟩
      obtain ⟨e', he', hc⟩ := hcode hw
      obtain rfl : e = e' := Option.some.inj (he.symm.trans he')
      exact hc
    · exact ⟨e, he, rfl, fun hw => absurd hw hwrite⟩

lemma notCode_clearCode {addr gen : ℕ} {e : PtEntry} {write : Prop}
    (he : (w.mem s).pt.memPt (page addr) = some e) (hgen : gen ≤ changes s w) :
    gen ≤ changes s (clearCode s (page addr) e.flags w) ∧
      (write → Stamped (changes s) gen (NotCode s addr) (clearCode s (page addr) e.flags w)) := by
  refine ⟨hgen.trans (kept_clearCode he).le, fun _ => ?_⟩
  unfold clearCode
  split_ifs with hcode
  · apply Stamped.of_lt
    rw [changes_memChanged, changes_setFlags]
    exact Nat.lt_succ_of_le hgen
  · apply Stamped.of_fact
    · exact hgen.trans (changes_setFlags s s (page addr) e.flags w).ge
    · refine ⟨e, ?_, by simpa using hcode⟩
      have hslot : w.slot (s, ptIndex (page addr)) = some e := he
      rw [memPt_eq_slot, setFlags_slot, update_self, hslot]
      rfl

lemma stamped_none {gen : ℕ} {P : World → HostPtr → Prop} (hgen : gen ≤ changes s w) :
    Stamped (changes s) gen (fun w => ∀ p, none = some p → P w p) w :=
  .of_fact hgen (by simp)

/-- The steps of a miss change the page table as `mem_ptr` does, and accept only translations
that were not overtaken. -/
theorem stepOk_miss (hent : ∀ i, EntryOk s w (t.entries i)) (hp : PhaseOk s m w m.phase)
    (hgive : ¬ m.GivesUp s w) : StepOk s w (m.step h s w t) := by
  obtain ⟨addr, write, attempt, phase⟩ := m
  cases phase with
  | load =>
    refine .goto (fun i => ?_) (.refl w) le_rfl
    simp only
    split_ifs
    · exact entryOk_flush t i
    · exact hent i
  | lookup gen =>
    have hreserve : StepOk s w (w, t,
        Miss.checkReservation s ⟨addr, write, attempt, .lookup gen⟩ gen w) := by
      unfold Miss.checkReservation
      cases memFindReservation (w.mem s).reservations (page addr) with
      | none => exact .goto hent (.refl w) (stamped_none hp)
      | some res => exact .goto hent (.refl w) hp
    unfold Miss.step
    simp only
    cases (w.mem s).pt.memPt (page addr) with
    | some e => exact .haveEntry hent (.refl w) hp
    | none =>
      cases (w.mem s).pt.nextMapped memPages ((w.mem s).pt.memNextPage (page addr)) with
      | none => exact hreserve
      | some p =>
        simp only
        by_cases hgrow : (((w.mem s).pt.memPt p).map (·.flags.growsdown)).getD false = true
        · rw [if_pos hgrow]
          by_cases hlimit : withinStackLimit h (page addr) = true
          · rw [if_pos hlimit]
            exact .goto hent (.refl w) hp
          · rw [if_neg hlimit]
            exact .goto hent (.refl w) (stamped_none hp)
        · rw [if_neg hgrow]
          exact hreserve
  | grow gen p =>
    unfold Miss.step
    simp only
    split_ifs
    · exact .haveEntry hent (.refl w) hp
    · have hk := kept_growStack h s s (page addr) p w
      exact .haveEntry hent hk (Nat.le_trans hp hk.le)
  | reserve gen flags =>
    unfold Miss.step
    simp only
    split_ifs
    · exact .haveEntry hent (.refl w) hp
    · have hk := (Kept.of_mem rfl : Kept s w (w.addAnon 1)).trans
        (kept_ptMapNothing h s s (page addr) 1 (flags &&& ~~~pGrowsdown) _)
      exact .haveEntry hent hk (Nat.le_trans hp hk.le)
  | prepare gen =>
    unfold Miss.step
    simp only
    cases he : (w.mem s).pt.memPt (page addr) with
    | none => exact .goto hent (.refl w) (stamped_none hp)
    | some e =>
      simp only
      split_ifs
      · exact .goto hent (kept_clearCode he) (notCode_clearCode he hp)
      · exact .goto hent (kept_clearCode he) (notCode_clearCode he hp)
      · exact .goto hent (.refl w) (stamped_none hp)
  | copy gen =>
    have hk := kept_copyForWrite h s (page addr) w
    exact .goto hent hk ((show PhaseOk s _ w (.nofault gen) from hp).kept hk)
  | nofault gen =>
    refine .goto hent (.refl w) ⟨hp.1, fun heq p hptr => ?_⟩
    exact translates_of_nofault hptr fun hw => (hp.2 hw).fact heq
  | recheck gen ptr =>
    unfold Miss.step
    simp only
    split_ifs with heq hattempt
    · exact .goto hent (.refl w) hp
    · exact absurd ⟨gen, ptr, rfl, heq, hattempt⟩ hgive
    · exact .goto hent (.refl w) trivial
  | giveUp ptr => exact hp.elim
  | stamp gen ptr =>
    cases ptr with
    | none => exact ⟨.refl w, hent, by simp [Miss.step]⟩
    | some p =>
      unfold Miss.step
      simp only
      have hfact := Stamped.imp hp fun hall => hall p rfl
      split_ifs with hwrite
      · refine ⟨.refl w, entryOk_fill hent (hfact.imp fun htr => ?_), by simp⟩
        simpa [hwrite] using htr
      · refine .goto hent (.refl w) (hfact.imp fun htr => ⟨?_, fun hcode => ?_⟩)
        · obtain ⟨e, he, hhost, -⟩ := htr
          exact ⟨e, he, hhost, False.elim⟩
        · obtain ⟨e, he, -, -⟩ := htr
          refine ⟨e, he, ?_⟩
          simpa [mmuCodePageIntact, he] using hcode
  | probe gen ptr isCode =>
    refine ⟨.refl w, entryOk_fill hent (Stamped.imp hp ?_), by simp [Miss.step]⟩
    rintro ⟨⟨e, he, hhost, -⟩, hcode⟩
    refine ⟨e, he, hhost, fun hwritable => ?_⟩
    simp only [Bool.and_eq_true, Bool.not_eq_true'] at hwritable
    obtain ⟨hc, hsome⟩ := hwritable
    obtain ⟨e', he', hcode'⟩ := hcode hc
    obtain rfl : e = e' := Option.some.inj (he.symm.trans he')
    refine ⟨?_, hcode'⟩
    have hpt : (w.mem s).pt.memPt (page addr) = some e := he
    cases hw : e.flags.writable with
    | true => rfl
    | false => simp [memPtrNofault, page_tlbPage, hpt, hw] at hsome

/-! ### Runs -/

namespace TlbState

structure Inv (s : ℕ) (st : TlbState) : Prop where
  entry : ∀ i, EntryOk s st.world (st.tlb.entries i)
  miss : ∀ m, st.miss = some m → PhaseOk s m st.world m.phase

lemma inv_init (s : ℕ) : Inv s init where
  entry _ := entryOk_empty s _
  miss _ hm := nomatch hm

lemma Inv.kept (hinv : st.Inv s) (hk : Kept s st.world w) (blocks : List ℕ) :
    Inv s { st with world := w, compiled := blocks } where
  entry i := (hinv.entry i).kept hk
  miss m hm := (hinv.miss m hm).kept hk

lemma Inv.access (hinv : st.Inv s) (hidle : st.miss = none) (addr : ℕ) (write : Bool) :
    (st.access s addr write).Inv s := by
  have hmiss : Inv s { st with miss := some { addr, write, attempt := 0, phase := .load } } :=
    ⟨hinv.entry, fun m hm => Option.some.inj hm ▸ trivial⟩
  unfold TlbState.access
  cases write with
  | true =>
    simp only [if_true]
    cases st.tlb.writeHit (st.world.mem s).changes addr with
    | none => exact hmiss
    | some p => exact ⟨hinv.entry, fun m hm => nomatch hidle.symm.trans hm⟩
  | false =>
    simp only [Bool.false_eq_true, if_false]
    cases st.tlb.readHit (st.world.mem s).changes addr with
    | none => exact hmiss
    | some p => exact hinv

/-- A step that does not reach one of the exits that go wrong: the page-table changes are
announced by `mem_changed`, and the miss does not give up. -/
def Sound (s : ℕ) (st : TlbState) : TlbAct → Prop
  | .memOp h op => op.Announced h
  | .next _ => ∀ m, st.miss = some m → ¬ m.GivesUp s st.world
  | .compile _ | .refresh | .access .. => True

theorem inv_step (a : TlbAct) (ha : st.Sound s a) (hinv : st.Inv s) : (step s st a).Inv s := by
  cases a with
  | memOp h op => exact hinv.kept (MemOp.kept_step s st.world (h, op) ha) _
  | compile page => exact hinv.kept (kept_mmuMarkCodePage s s page st.world) _
  | refresh =>
    simp only [step]
    cases hidle : st.miss with
    | some m => exact hinv
    | none =>
      refine ⟨fun i => ?_, fun m hm => nomatch hm⟩
      simp only [Tlb.refresh]
      split_ifs
      · exact hinv.entry i
      · exact entryOk_flush _ i
  | access addr write =>
    simp only [step]
    cases hidle : st.miss with
    | some m => exact hinv
    | none => exact hinv.access hidle addr write
  | next h =>
    simp only [step]
    cases hm : st.miss with
    | none => exact hinv
    | some m =>
      have hok := stepOk_miss (h := h) hinv.entry (hinv.miss m hm) (ha m hm)
      exact ⟨hok.entry, hok.miss⟩

lemma Inv.translates (hinv : st.Inv s) {addr : ℕ} {e : TlbEntry}
    (he : st.tlb.entries (tlbIndex addr) = e) (hpage : e.page = tlbPage addr)
    (hgen : e.gen = changes s st.world) :
    Translates s addr e.host (e.pageIfWritable ≠ tlbPageEmpty) st.world := by
  have hok := (he ▸ hinv.entry (tlbIndex addr)).stamped.fact hgen.symm
  obtain ⟨pe, hpe, hhost, hwrite⟩ := hok (hpage ▸ tlbPage_ne_empty addr)
  exact ⟨pe, by rwa [hpage, page_tlbPage] at hpe, hhost, hwrite⟩

theorem Inv.coherent (hinv : st.Inv s) : st.Coherent s := by
  have hstorable : ∀ addr host, Translates s addr host True st.world → st.Storable s addr := by
    rintro addr host ⟨e, he, -, hwrite⟩
    obtain ⟨hwritable, hcode⟩ := hwrite trivial
    exact ⟨e, he, hwritable, fun hc => by simp [hcode] at hc⟩
  constructor
  · intro addr p hit
    simp only [Tlb.readHit] at hit
    split_ifs at hit with hcond
    obtain rfl := Option.some.inj hit
    obtain ⟨e, he, hhost, hwrite⟩ := hinv.translates rfl hcond.1 hcond.2
    refine ⟨?_, fun hne => hstorable addr _ ⟨e, he, hhost, fun _ => hwrite hne⟩⟩
    simp [memPtrNofault, he, TlbEntry.hostAddr, hhost]
  · intro addr p hit
    simp only [Tlb.writeHit] at hit
    split_ifs at hit with hcond
    obtain rfl := Option.some.inj hit
    have hne : (st.tlb.entries (tlbIndex addr)).pageIfWritable ≠ tlbPageEmpty :=
      hcond.1 ▸ tlbPage_ne_empty addr
    have hpage := ((hinv.entry (tlbIndex addr)).writable.resolve_left hne).symm.trans hcond.1
    obtain ⟨e, he, hhost, hwrite⟩ := hinv.translates rfl hpage hcond.2
    refine ⟨?_, hstorable addr _ ⟨e, he, hhost, fun _ => hwrite hne⟩⟩
    simp [memPtrNofault, he, TlbEntry.hostAddr, hhost, (hwrite hne).1]

end TlbState

/-- In a run in which `pt_set_flags` is not cut short and no miss gives up, every hit is with
the current translation, and stores go only where they may. -/
theorem tlb_coherent (s : ℕ) (acts : List TlbAct)
    (hacts : RunAll (TlbState.step s) (TlbState.Sound s) .init acts) :
    (run (TlbState.step s) .init acts).Coherent s := by
  have hinv := run_invariant (P := TlbState.Inv s) (fun st a ha hst => TlbState.inv_step a ha hst)
    hacts (TlbState.inv_init s)
  exact hinv.coherent

/-- Another thread compiles code of a page while a load from it is being translated: the
translation is done once more, and the entry is for loads only. -/
theorem tlb_coherent_load :
    let acts : List TlbAct := [.memOp {} (.mapNothing 0 ⟨5, 1, by decide⟩ ⟨pWrite, fun _ => rfl⟩),
      .access 0x5008 false, .next {}, .next {}, .next {}, .compile 5, .next {}, .next {}, .next {},
      .next {}, .next {}, .next {}, .next {}]
    (run (TlbState.step 0) .init acts).Coherent 0 ∧
      (run (TlbState.step 0) .init acts).tlb.readHit 1 0x5008 = some ⟨0, 8⟩ ∧
      (run (TlbState.step 0) .init acts).tlb.writeHit 1 0x5008 = none := by
  intro acts
  have hnext : ∀ st : TlbState, st.miss.all (·.attempt < 8) = true → st.Sound 0 (.next {}) := by
    rintro st hall m hm ⟨gen, ptr, -, -, hattempt⟩
    rw [hm] at hall
    simp only [Option.all_some, decide_eq_true_eq] at hall
    exact absurd hattempt (Nat.not_le.mpr hall)
  refine ⟨tlb_coherent 0 acts ?_, by decide +kernel, by decide +kernel⟩
  refine ⟨trivial, trivial, hnext _ ?_, hnext _ ?_, hnext _ ?_, trivial, hnext _ ?_, hnext _ ?_,
    hnext _ ?_, hnext _ ?_, hnext _ ?_, hnext _ ?_, hnext _ ?_, trivial⟩
  all_goals decide +kernel

/-- Nine times another thread compiles the page again while a store to it is being translated:
the entry for stores is then accepted although the page holds compiled code. -/
theorem tlb_not_coherent : ¬ ∀ acts, (run (TlbState.step 0) .init acts).Coherent 0 := by
  intro hall
  have hcoh := hall ([.memOp {} (.mapNothing 0 ⟨5, 1, by decide⟩ ⟨pWrite, fun _ => rfl⟩),
      .access 0x5000 true] ++
    (List.replicate 9 [.next {}, .next {}, .next {}, .next {}, .compile 5, .next {}]).flatten ++
    [.next {}, .next {}])
  generalize hst : run (TlbState.step 0) .init _ = st at hcoh
  have hit : st.tlb.writeHit (changes 0 st.world) 0x5000 = some ⟨0, 0⟩ := by
    subst hst
    decide +kernel
  have hentry : (st.world.mem 0).pt.memPt 5 =
      some { data := 0, offset := 0, flags := pWrite ||| pAnonymous ||| pCode } := by
    subst hst
    decide +kernel
  have hcompiled : 5 ∈ st.compiled := by
    subst hst
    decide +kernel
  obtain ⟨-, e, he, -, hblocks⟩ := hcoh.write _ _ hit
  obtain rfl := Option.some.inj (hentry.symm.trans he)
  exact hblocks ⟨rfl, hcompiled⟩

end ShellBox
