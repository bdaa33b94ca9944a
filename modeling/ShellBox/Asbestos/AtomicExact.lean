import ShellBox.Asbestos.AtomicOps

/-!
# Atomic instructions touch their operand

The helpers translate the first byte of the operand only, and go on from there on the host. So the
bytes that they touch are those of the operand if the whole operand is together on the host, as it
is inside a page. Pairs are read and written by the place of the second register, which for a pair
at X30 is that of the stack pointer, and the words of a pair of words are stored without clearing
the halves above them.
-/

namespace ShellBox

open Function

variable {mmu : Mmu} {a : BitVec 64} {n p : ℕ} {s s' : AtomicState} {t : List HostAccess}
  {e : AtomicExit} {gs : List AtomicGadget}

/-! ### What the instructions should do -/

def HostAccess.Of (mmu : Mmu) (a : BitVec 64) (n : ℕ) (b : HostAccess) : Prop :=
  b.bytes = n ∧ ∀ k < n, mmu.guestPtr .write (a + .ofNat 64 k) = some (b.ptr + k)

structure UpdatesOperand (mmu : Mmu) (i : AtomicInsn) (s s' : AtomicState) (t : List HostAccess) :
    Prop where
  touched : ∀ b ∈ t, b.Of mmu (guestAddr (s.cpu.slot i.rn)) i.bytes
  updated : ∃ t' last, t = t' ++ [last] ∧ (∀ b ∈ t', b.after = b.before) ∧
    let old := loadLE last.before last.ptr i.bytes
    last.after = storeLE last.before last.ptr i.bytes (i.stored s.cpu old) ∧
      s'.cpu = i.result s.cpu old
  sp : s'.sp = s.sp

/-- No memory is touched, and the registers and the emulator's stack pointer are as before. -/
structure FaultsCleanly (s s' : AtomicState) (t : List HostAccess) : Prop where
  touched : t = []
  cpu : s'.cpu = { s.cpu with
    segfaultAddr := s'.cpu.segfaultAddr, segfaultWasWrite := s'.cpu.segfaultWasWrite }
  sp : s'.sp = s.sp

def TouchesOperand (mmu : Mmu) (i : AtomicInsn) (gs : List AtomicGadget) (s : AtomicState) : Prop :=
  (∃ t e, RunGadgets mmu gs s t e) ∧ ∀ t e, RunGadgets mmu gs s t e →
    match e with
    | .next s'  => UpdatesOperand mmu i s s' t
    | .fault s' => FaultsCleanly s s' t

/-- If the first byte can be written, the others are next to it on the host. -/
def Together (mmu : Mmu) (a : BitVec 64) (n : ℕ) : Prop :=
  ∀ p, mmu.guestPtr .write a = some p → ∀ k < n,
    mmu.guestPtr .write (a + .ofNat 64 k) = some (p + k)

def AtomicInsn.InReach (mmu : Mmu) (a : BitVec 64) : AtomicInsn → Prop
  | rmw size .. | cas size .. => Together mmu a (2 ^ size.val)
  | casp true rs _ rt =>
    16 ∣ a.toNat → (mmu.guestPtr .write a).isSome → rs ≠ 30 ∧ rt ≠ 30
  | casp false .. => False

/-! ### Runs of gadgets -/

lemma push_pop (s : AtomicState) : s.push.pop = s := by
  rw [AtomicState.push, AtomicState.pop, BitVec.sub_add_cancel]

lemma runGadgets_skip {g : AtomicGadget} {s₁ : AtomicState}
    (h : ∀ t e, g.Run mmu s t e ↔ t = [] ∧ e = .next s₁) :
    RunGadgets mmu (g :: gs) s t e ↔ RunGadgets mmu gs s₁ t e := by
  constructor
  · rintro ⟨t₁, e₁, hrun, hrest⟩
    obtain ⟨rfl, rfl⟩ := (h t₁ e₁).mp hrun
    obtain ⟨t₂, rfl, hrest⟩ := hrest
    exact hrest
  · intro hrest
    exact ⟨[], .next s₁, (h _ _).mpr ⟨rfl, rfl⟩, t, rfl, hrest⟩

lemma runGadgets_barrier {b : BitVec 1} :
    RunGadgets mmu (barrier b ++ gs) s t e ↔ RunGadgets mmu gs s t e := by
  rw [barrier]
  split_ifs
  · exact runGadgets_skip fun _ _ => Iff.rfl
  · exact Iff.rfl

def AtomicState.addressed (s : AtomicState) (rn : ℕ) : AtomicState :=
  { s with addr := guestAddr (s.cpu.slot rn), valueAddr := guestAddr (s.cpu.slot rn) }

lemma runGadgets_calcAddr {rn : BitVec 5} :
    RunGadgets mmu ([.calcAddrImm (packAt 0 rn ||| (0 : BitVec 64) <<< 8)] ++ gs) s t e ↔
      RunGadgets mmu gs (s.addressed rn.toNat) t e := by
  apply runGadgets_skip
  intro t e
  have hrn : (packAt 0 rn ||| (0 : BitVec 64) <<< 8).extractLsb' 0 5 = rn := by
    simp [extract_packAt]
  have hoff : (packAt 0 rn ||| (0 : BitVec 64) <<< 8).sshiftRight 8 = 0 := by
    rw [BitVec.sshiftRight_or_distrib, sshiftRight_packAt rn (by decide) (by decide)]
    decide
  rw [AtomicGadget.Run, hrn, hoff, add_zero]
  rfl

lemma runGadgets_helper {α : Type} {g : AtomicGadget} {helper : List HostAccess → Option α → Prop}
    {ok : α → AtomicState} {failed : AtomicState}
    (h : ∀ t e, g.Run mmu s t e ↔ ∃ r, helper t r ∧ e = .after ok failed r) :
    RunGadgets mmu (g :: gs) s t e ↔
      (helper t none ∧ e = .fault failed) ∨
        ∃ v t₁ t₂, helper t₁ (some v) ∧ t = t₁ ++ t₂ ∧ RunGadgets mmu gs (ok v) t₂ e := by
  constructor
  · rintro ⟨t₁, e₁, hrun, hrest⟩
    obtain ⟨r, hr, rfl⟩ := (h t₁ e₁).mp hrun
    cases r with
    | none =>
      obtain ⟨rfl, rfl⟩ := hrest
      exact Or.inl ⟨hr, rfl⟩
    | some v =>
      obtain ⟨t₂, rfl, hrest⟩ := hrest
      exact Or.inr ⟨v, t₁, t₂, hr, rfl, hrest⟩
  · rintro (⟨hr, rfl⟩ | ⟨v, t₁, t₂, hr, rfl, hrest⟩)
    · exact ⟨t, _, (h _ _).mpr ⟨none, hr, rfl⟩, rfl, rfl⟩
    · exact ⟨t₁, _, (h _ _).mpr ⟨some v, hr, rfl⟩, t₂, rfl, hrest⟩

/-! ### The accesses of the helpers -/

/-- One access stores, and those before it change nothing. All are to the same bytes. -/
structure StoresOnce (p n : ℕ) (f : ℕ → ℕ) (t : List HostAccess) (old : ℕ) : Prop where
  last : ∃ t' m, t = t' ++ [⟨p, n, m, storeLE m p n (f old)⟩] ∧ loadLE m p n = old ∧
    ∀ b ∈ t', b.after = b.before
  same : ∀ b ∈ t, b.ptr = p ∧ b.bytes = n

lemma StoresOnce.single (p n : ℕ) (f : ℕ → ℕ) (m : HostMem) :
    StoresOnce p n f [⟨p, n, m, storeLE m p n (f (loadLE m p n))⟩] (loadLE m p n) where
  last := ⟨[], m, rfl, rfl, fun b hb => by cases hb⟩
  same := by
    intro b hb
    rw [List.mem_singleton] at hb
    exact hb ▸ ⟨rfl, rfl⟩

lemma StoresOnce.cons {f : ℕ → ℕ} {old : ℕ} (m : HostMem) (h : StoresOnce p n f t old) :
    StoresOnce p n f (⟨p, n, m, m⟩ :: t) old where
  last := by
    obtain ⟨t', m', rfl, hold, hsame⟩ := h.last
    refine ⟨⟨p, n, m, m⟩ :: t', m', rfl, hold, fun b hb => ?_⟩
    rcases List.mem_cons.mp hb with rfl | hb
    · rfl
    · exact hsame b hb
  same := by
    intro b hb
    rcases List.mem_cons.mp hb with rfl | hb
    · exact ⟨rfl, rfl⟩
    · exact h.same b hb

lemma RmwCasLoop.storesOnce {f : ℕ → ℕ} {old last : ℕ} (h : RmwCasLoop p n f old t last) :
    StoresOnce p n f t last := by
  induction h with
  | stored m old hold =>
    rw [← hold]
    exact .single p n f m
  | failed m old _ ih => exact ih.cons m

structure HelperSpec (mmu : Mmu) (a : BitVec 64) (n : ℕ) (f : ℕ → ℕ) {α : Type} (ret : ℕ → α)
    (faults : Prop) (helper : List HostAccess → Option α → Prop) : Prop where
  fault : ∀ t, helper t none ↔ t = [] ∧ faults
  stores : ∀ t v, helper t (some v) → ¬ faults ∧ ∃ p old,
    mmu.writePtr a.toNat = some p ∧ StoresOnce p n f t old ∧ v = ret old
  /-- A run with this memory under the last access. -/
  runs : ∀ m p, ¬ faults → mmu.writePtr a.toNat = some p → ∃ t, StoresOnce p n f t (loadLE m p n) ∧
    helper t (some (ret (loadLE m p n)))

lemma writePtr_guestAddr (mmu : Mmu) (a : BitVec 64) :
    mmu.writePtr (guestAddr a).toNat = mmu.guestPtr .write (guestAddr a) := by
  have hlt : (guestAddr a).toNat / pageSize < 2 ^ 36 := by
    rw [toNat_guestAddr, pageSize]
    omega
  rw [Mmu.guestPtr, Nat.mod_eq_of_lt hlt]
  rfl

section MinMax

variable {w : ℕ} (o v : BitVec w)

lemma toNat_ofInt_max : (BitVec.ofInt w (max o.toInt v.toInt)).toNat =
    if v.toInt < o.toInt then o.toNat else v.toNat := by
  rw [max_comm, max_def_lt]
  split_ifs <;> rw [BitVec.ofInt_toInt]

lemma toNat_ofInt_min : (BitVec.ofInt w (min o.toInt v.toInt)).toNat =
    if o.toInt < v.toInt then o.toNat else v.toNat := by
  rw [min_def_lt]
  split_ifs <;> rw [BitVec.ofInt_toInt]

lemma toNat_ofNat_max : (BitVec.ofNat w (max o.toNat v.toNat)).toNat =
    if v < o then o.toNat else v.toNat := by
  simp only [BitVec.lt_def]
  rw [max_comm, max_def_lt]
  split_ifs <;> rw [BitVec.ofNat_toNat, BitVec.setWidth_eq]

lemma toNat_ofNat_min : (BitVec.ofNat w (min o.toNat v.toNat)).toNat =
    if o < v then o.toNat else v.toNat := by
  simp only [BitVec.lt_def]
  rw [min_def_lt]
  split_ifs <;> rw [BitVec.ofNat_toNat, BitVec.setWidth_eq]

end MinMax

lemma rmwValue_eq (size : AccessSize) (op old value : ℕ) :
    rmwValue size op old value =
      (atomicResult (w := 8 * 2 ^ size.val) op (.ofNat _ old) (.ofNat _ value)).toNat := by
  match op with
  | 0 | 1 | 2 | 3 => rfl
  | 4 => exact (toNat_ofInt_max _ _).symm
  | 5 => exact (toNat_ofInt_min _ _).symm
  | 6 => exact (toNat_ofNat_max _ _).symm
  | 7 => exact (toNat_ofNat_min _ _).symm
  | _ + 8 => rfl

lemma spec_cAtomicRmw {value : BitVec 64} {size : AccessSize} {op : ℕ} (hop : op ≤ 8) :
    HelperSpec mmu a (2 ^ size.val) (fun old => rmwValue size op old value.toNat) (.ofNat 64)
      (mmu.writePtr a.toNat = none) (CAtomicRmw mmu a value size op) where
  fault := by
    intro t
    constructor
    · rintro (h | h)
      · exact ⟨rfl, h⟩
      · exact absurd hop (Nat.not_le.mpr h)
    · rintro ⟨rfl, h⟩
      exact .segfault h
  stores := by
    intro t v h
    cases h with
    | once _ hptr _ m hold =>
      refine ⟨by simp [hptr], _, _, hptr, ?_, rfl⟩
      rw [← hold]
      exact .single _ _ _ m
    | loop _ hptr _ m ht => exact ⟨by simp [hptr], _, _, hptr, ht.storesOnce.cons m, rfl⟩
  runs := by
    intro m p _ hptr
    cases hloop : rmwLoops op with
    | false => exact ⟨_, .single p _ _ m, .once hop hptr hloop m rfl⟩
    | true =>
      exact ⟨_, (StoresOnce.single p _ _ m).cons m, .loop hop hptr hloop m (.stored m _ rfl)⟩

lemma spec_runOnce {α : Type} {helper : HostMem → HostMem × Option α} {f : ℕ → ℕ} {ret : ℕ → α}
    {faults : Prop} (hfault : ∀ m, (helper m).2 = none ↔ faults)
    (hptr : mmu.writePtr a.toNat = none → faults)
    (hok : ∀ m p, ¬ faults → mmu.writePtr a.toNat = some p →
      helper m = (storeLE m p n (f (loadLE m p n)), some (ret (loadLE m p n)))) :
    HelperSpec mmu a n f ret faults (RunOnce mmu a n helper) where
  fault := by
    intro t
    constructor
    · rintro ⟨m, hr, rfl⟩
      rw [← hr]
      exact ⟨rfl, (hfault m).mp hr.symm⟩
    · rintro ⟨rfl, h⟩
      refine ⟨fun _ => 0, ((hfault _).mpr h).symm, ?_⟩
      rw [(hfault _).mpr h]
  stores := by
    rintro t v ⟨m, hr, rfl⟩
    have hno : ¬ faults := fun h => by simp [(hfault m).mpr h] at hr
    cases hp : mmu.writePtr a.toNat with
    | none => exact absurd (hptr hp) hno
    | some p =>
      have hm := hok m p hno hp
      rw [hm] at hr ⊢
      exact ⟨hno, p, _, rfl, .single p n f m, Option.some.inj hr⟩
  runs := by
    intro m p hno hp
    refine ⟨_, .single p n f m, m, ?_, ?_⟩
    · rw [hok m p hno hp]
    · rw [hok m p hno hp, hp]

lemma spec_cAtomicCas (expected desired : BitVec 64) (size : AccessSize) :
    HelperSpec mmu a (2 ^ size.val)
      (fun old => if old = expected.toNat % 256 ^ 2 ^ size.val then desired.toNat else old)
      (.ofNat 64) (mmu.writePtr a.toNat = none) (CAtomicCas mmu a expected desired size) := by
  apply spec_runOnce
  · intro m
    rw [cAtomicCas]
    cases mmu.writePtr a.toNat <;> simp
  · exact id
  · intro m p _ hp
    rw [cAtomicCas, hp]
    exact Prod.ext (compareExchange_fst ..) rfl

lemma spec_cAtomicCas128 {expLo expHi desLo desHi : BitVec 64} :
    HelperSpec mmu a 16
      (fun old => if old = pairLE 8 expLo.toNat expHi.toNat then pairLE 8 desLo.toNat desHi.toNat
        else old)
      (fun old => (.ofNat 64 (old % 256 ^ 8), .ofNat 64 (old / 256 ^ 8)))
      (a.toNat % 16 ≠ 0 ∨ mmu.writePtr a.toNat = none)
      (CAtomicCas128 mmu a expLo expHi desLo desHi) := by
  -- an aligned access does not cross a page
  have hpage : a.toNat % 16 = 0 → ¬ pageSize - 16 < pgoffset a.toNat := by
    rw [pgoffset, pageSize]
    omega
  apply spec_runOnce
  · intro m
    rw [cAtomicCas128]
    split_ifs with hoff hcross
    · simp [hoff]
    · exact absurd hcross (hpage (Decidable.not_not.mp hoff))
    · cases mmu.writePtr a.toNat <;> simp [Decidable.not_not.mp hoff]
  · exact Or.inr
  · intro m p hno hp
    rw [not_or, not_not] at hno
    rw [cAtomicCas128, if_neg (not_not.mpr hno.1), if_neg (hpage hno.1), hp]
    have hlt : 256 ^ 8 > 0 := by positivity
    refine Prod.ext ?_ ?_
    · show (compareExchange _ _ _ _ _).1 = _
      rw [compareExchange_fst, Nat.mod_eq_of_lt (pairLE_lt 8 _ _)]
    · have hsplit := loadLE_add m p 8 8
      show some (BitVec.ofNat 64 (loadLE m p 8), BitVec.ofNat 64 (loadLE m (p + 8) 8)) = _
      rw [hsplit, Nat.add_mul_mod_self_left, Nat.mod_eq_of_lt (loadLE_lt m p 8),
        Nat.add_mul_div_left _ _ hlt, Nat.div_eq_of_lt (loadLE_lt m p 8), Nat.zero_add]

/-! ### From the helpers to the instructions -/

/-- The code of an instruction calls a helper on the operand, and then puts the value where the
instruction wants it. -/
structure CodeSpec (mmu : Mmu) (i : AtomicInsn) (gs : List AtomicGadget) (s : AtomicState)
    (f : ℕ → ℕ) (faults : Prop) (ok : ℕ → AtomicState) (failed : AtomicState) : Prop where
  runs : ∀ m p, ¬ faults → mmu.guestPtr .write (guestAddr (s.cpu.slot i.rn)) = some p →
    ∃ t, StoresOnce p i.bytes f t (loadLE m p i.bytes) ∧
      RunGadgets mmu gs s t (.next (ok (loadLE m p i.bytes)))
  next : ∀ t s', RunGadgets mmu gs s t (.next s') → ¬ faults ∧ ∃ p old,
    mmu.guestPtr .write (guestAddr (s.cpu.slot i.rn)) = some p ∧ StoresOnce p i.bytes f t old ∧
      s' = ok old
  fault : ∀ t s', RunGadgets mmu gs s t (.fault s') ↔ t = [] ∧ faults ∧ s' = failed
  mapped : ¬ faults → (mmu.guestPtr .write (guestAddr (s.cpu.slot i.rn))).isSome

variable {i : AtomicInsn} {f : ℕ → ℕ} {faults : Prop} {ok : ℕ → AtomicState} {failed : AtomicState}

lemma codeSpec_of_helper {α : Type} {ret : ℕ → α} {helper : List HostAccess → Option α → Prop}
    (okv : α → AtomicState) {addr : BitVec 64} (haddr : addr = guestAddr (s.cpu.slot i.rn))
    (hrun : ∀ t e, RunGadgets mmu gs s t e ↔
      (helper t none ∧ e = .fault failed) ∨ ∃ v, helper t (some v) ∧ e = .next (okv v))
    (hmapped : mmu.writePtr addr.toNat = none → faults)
    (h : HelperSpec mmu addr i.bytes f ret faults helper) (hok : ∀ old, ok old = okv (ret old)) :
    CodeSpec mmu i gs s f faults ok failed := by
  subst haddr
  obtain rfl : ok = fun old => okv (ret old) := funext hok
  rw [writePtr_guestAddr] at hmapped
  constructor
  · intro m p hno hp
    rw [← writePtr_guestAddr] at hp
    obtain ⟨t, ht, hhelper⟩ := h.runs m p hno hp
    exact ⟨t, ht, (hrun _ _).mpr (Or.inr ⟨_, hhelper, rfl⟩)⟩
  · intro t s' hgs
    rcases (hrun _ _).mp hgs with ⟨_, he⟩ | ⟨v, hhelper, he⟩
    · cases he
    · obtain ⟨hno, p, old, hp, ht, rfl⟩ := h.stores t v hhelper
      rw [writePtr_guestAddr] at hp
      exact ⟨hno, p, old, hp, ht, AtomicExit.next.inj he⟩
  · intro t s'
    rw [hrun]
    constructor
    · rintro (⟨hhelper, he⟩ | ⟨_, _, he⟩)
      · obtain ⟨rfl, hfaults⟩ := (h.fault t).mp hhelper
        exact ⟨rfl, hfaults, AtomicExit.fault.inj he⟩
      · cases he
    · rintro ⟨rfl, hfaults, rfl⟩
      exact Or.inl ⟨(h.fault []).mpr ⟨rfl, hfaults⟩, rfl⟩
  · intro hno
    by_contra hnone
    rw [Bool.not_eq_true, Option.isSome_eq_false_iff, Option.isNone_iff_eq_none] at hnone
    exact hno (hmapped hnone)

lemma CodeSpec.touches (h : CodeSpec mmu i gs s f faults ok failed)
    (htogether : ¬ faults → Together mmu (guestAddr (s.cpu.slot i.rn)) i.bytes)
    (hf : ¬ faults → ∀ old, f old = i.stored s.cpu old)
    (hcpu : ¬ faults → ∀ old, (ok old).cpu = i.result s.cpu old) (hsp : ∀ old, (ok old).sp = s.sp)
    (hfailed : faults → FaultsCleanly s failed []) : TouchesOperand mmu i gs s := by
  constructor
  · by_cases hfaults : faults
    · exact ⟨[], .fault failed, (h.fault _ _).mpr ⟨rfl, hfaults, rfl⟩⟩
    · obtain ⟨p, hp⟩ := Option.isSome_iff_exists.mp (h.mapped hfaults)
      obtain ⟨t, _, hrun⟩ := h.runs (fun _ => 0) p hfaults hp
      exact ⟨t, _, hrun⟩
  · intro t e hrun
    cases e with
    | fault s' =>
      obtain ⟨rfl, hfaults, rfl⟩ := (h.fault t s').mp hrun
      exact hfailed hfaults
    | next s' =>
      obtain ⟨hno, p, old, hp, ht, rfl⟩ := h.next t s' hrun
      refine ⟨?_, ?_, hsp old⟩
      · intro b hb
        obtain ⟨hptr, hbytes⟩ := ht.same b hb
        exact ⟨hbytes, hptr ▸ htogether hno p hp⟩
      · obtain ⟨t', m, rfl, hold, hsame⟩ := ht.last
        refine ⟨t', _, rfl, hsame, ?_, ?_⟩
        · show storeLE m p i.bytes (f old) = _
          rw [hf hno old, ← hold]
        · show (ok old).cpu = i.result s.cpu (loadLE m p i.bytes)
          rw [hcpu hno old, hold]

lemma CodeSpec.of_touches (h : CodeSpec mmu i gs s f faults ok failed)
    (htouches : TouchesOperand mmu i gs s) (hno : ¬ faults)
    (hp : mmu.guestPtr .write (guestAddr (s.cpu.slot i.rn)) = some p) {old : ℕ}
    (hold : old < 256 ^ i.bytes) :
    (∀ k < i.bytes,
      mmu.guestPtr .write (guestAddr (s.cpu.slot i.rn) + .ofNat 64 k) = some (p + k)) ∧
    f old % 256 ^ i.bytes = i.stored s.cpu old % 256 ^ i.bytes ∧
    (ok old).cpu = i.result s.cpu old := by
  obtain ⟨t, ht, hrun⟩ := h.runs (storeLE (fun _ => 0) p i.bytes old) p hno hp
  rw [loadLE_storeLE, Nat.mod_eq_of_lt hold] at ht hrun
  obtain ⟨htouched, ⟨t₁, last, rfl, _, hstored, hresult⟩, _⟩ := htouches.2 _ _ hrun
  obtain ⟨t₂, m, heq, hloaded, _⟩ := ht.last
  obtain ⟨_, hlast⟩ := List.append_inj' heq rfl
  obtain rfl := List.head_eq_of_cons_eq hlast
  rw [hloaded] at hstored hresult
  refine ⟨(htouched _ (List.mem_append_right _ List.mem_cons_self)).2, ?_, hresult⟩
  have hload := congrArg (fun m => loadLE m p i.bytes) hstored
  rwa [loadLE_storeLE, loadLE_storeLE] at hload

/-! ### The instructions -/

lemma runGadgets_storeReg {r : BitVec 5} :
    RunGadgets mmu [.storeReg (packAt 0 r)] s t e ↔
      t = [] ∧ e = .next { s with cpu := s.cpu.setReg r.toNat s.tmp } := by
  have hr : (packAt 0 r).extractLsb' 0 5 = r := by simp [extract_packAt]
  have hrun : ∀ t e, AtomicGadget.Run mmu s t e (.storeReg (packAt 0 r)) ↔
      t = [] ∧ e = .next { s with cpu := s.cpu.setReg r.toNat s.tmp } := by
    intro t e
    rw [AtomicGadget.Run, hr]
  exact runGadgets_skip hrun

lemma runGadgets_call {α : Type} {rn : BitVec 5} {b b' : BitVec 1} {g : AtomicGadget}
    {rest : List AtomicGadget} {helper : List HostAccess → Option α → Prop}
    (ok : α → AtomicState) (fin : AtomicState → AtomicState)
    (hg : ∀ t e, g.Run mmu (s.addressed rn.toNat) t e ↔ ∃ r, helper t r ∧
      e = .after ok failed r)
    (hrest : ∀ s t e, RunGadgets mmu rest s t e ↔ t = [] ∧ e = .next (fin s)) :
    RunGadgets mmu ([.calcAddrImm (packAt 0 rn ||| (0 : BitVec 64) <<< 8)] ++ barrier b ++ [g]
        ++ barrier b' ++ rest) s t e ↔
      (helper t none ∧ e = .fault failed) ∨ ∃ v, helper t (some v) ∧ e = .next (fin (ok v)) := by
  rw [List.append_assoc, List.append_assoc, List.append_assoc, runGadgets_calcAddr,
    runGadgets_barrier, List.singleton_append, runGadgets_helper hg]
  apply or_congr Iff.rfl
  constructor
  · rintro ⟨v, t₁, t₂, hhelper, rfl, hrun⟩
    obtain ⟨rfl, rfl⟩ := (hrest _ _ _).mp (runGadgets_barrier.mp hrun)
    exact ⟨v, (List.append_nil t₁).symm ▸ hhelper, rfl⟩
  · rintro ⟨v, hhelper, rfl⟩
    exact ⟨v, t, [], hhelper, (List.append_nil t).symm,
      runGadgets_barrier.mpr ((hrest _ _ _).mpr ⟨rfl, rfl⟩)⟩

lemma runGadgets_nil (s : AtomicState) (t : List HostAccess) (e : AtomicExit) :
    RunGadgets mmu [] s t e ↔ t = [] ∧ e = .next (id s) := Iff.rfl

lemma faultsCleanly_segfault (s : AtomicState) (rn : ℕ) :
    FaultsCleanly s (s.addressed rn).segfault [] :=
  ⟨rfl, rfl, rfl⟩

section

variable {rs rn rt : BitVec 5} {size : BitVec 2} {op : BitVec 4} {b b' : BitVec 1}

lemma codeSpec_rmw (hop : op.toNat ≤ 8) :
    CodeSpec mmu (.rmw size.toFin op.toNat rs.toNat rn.toNat rt.toNat)
      ([.calcAddrImm (packAt 0 rn ||| (0 : BitVec 64) <<< 8)] ++ barrier b
        ++ [.atomicRmw (packAt 0 rs ||| packAt 8 size ||| packAt 16 op)] ++ barrier b'
        ++ [.storeReg (packAt 0 rt)]) s
      (fun old => rmwValue size.toFin op.toNat old (s.cpu.reg rs.toNat).toNat)
      (mmu.writePtr (guestAddr (s.cpu.slot rn.toNat)).toNat = none)
      (fun old => { s.addressed rn.toNat with
        tmp := .ofNat 64 old, cpu := s.cpu.setReg rt.toNat (.ofNat 64 old) })
      (s.addressed rn.toNat).segfault := by
  obtain ⟨hrs, hsize, hop'⟩ :=
    extract_pack₃ rs size op (by decide) (by decide) (by decide)
  refine codeSpec_of_helper (i := .rmw size.toFin op.toNat rs.toNat rn.toNat rt.toNat)
    (fun v => { s.addressed rn.toNat with tmp := v, cpu := s.cpu.setReg rt.toNat v })
    rfl (fun t e => ?_) id (spec_cAtomicRmw hop) fun _ => rfl
  refine runGadgets_call (fun v => { s.addressed rn.toNat with tmp := v })
    (fun s => { s with cpu := s.cpu.setReg rt.toNat s.tmp }) (fun t e => ?_)
    fun s t e => runGadgets_storeReg
  rw [AtomicGadget.Run, hrs, hsize, hop', push_pop]
  rfl

lemma codeSpec_cas :
    CodeSpec mmu (.cas size.toFin rs.toNat rn.toNat rt.toNat)
      ([.calcAddrImm (packAt 0 rn ||| (0 : BitVec 64) <<< 8)] ++ barrier b
        ++ [.atomicCas (packAt 0 rs ||| packAt 8 rt ||| packAt 16 size)] ++ barrier b'
        ++ [.storeReg (packAt 0 rs)]) s
      (fun old => if old = (s.cpu.reg rs.toNat).toNat % 256 ^ 2 ^ size.toFin.val then
        (s.cpu.reg rt.toNat).toNat else old)
      (mmu.writePtr (guestAddr (s.cpu.slot rn.toNat)).toNat = none)
      (fun old => { s.addressed rn.toNat with
        tmp := .ofNat 64 old, cpu := s.cpu.setReg rs.toNat (.ofNat 64 old) })
      (s.addressed rn.toNat).segfault := by
  obtain ⟨hrs, hrt, hsize⟩ :=
    extract_pack₃ rs rt size (by decide) (by decide) (by decide)
  refine codeSpec_of_helper (i := .cas size.toFin rs.toNat rn.toNat rt.toNat)
    (fun v => { s.addressed rn.toNat with tmp := v, cpu := s.cpu.setReg rs.toNat v })
    rfl (fun t e => ?_) id (spec_cAtomicCas _ _ _) fun _ => rfl
  refine runGadgets_call (fun v => { s.addressed rn.toNat with tmp := v })
    (fun s => { s with cpu := s.cpu.setReg rs.toNat s.tmp }) (fun t e => ?_)
    fun s t e => runGadgets_storeReg
  rw [AtomicGadget.Run, hrs, hrt, hsize, push_pop]
  rfl

lemma codeSpec_casp :
    CodeSpec mmu (.casp true rs.toNat rn.toNat rt.toNat)
      ([.calcAddrImm (packAt 0 rn ||| (0 : BitVec 64) <<< 8)] ++ barrier b
        ++ [.atomicCasp (packAt 0 rs ||| packAt 8 rt)] ++ barrier b') s
      (fun old => if old = pairLE 8 (s.cpu.reg rs.toNat).toNat (s.upper rs.toNat).toNat then
        pairLE 8 (s.cpu.reg rt.toNat).toNat (s.upper rt.toNat).toNat else old)
      ((guestAddr (s.cpu.slot rn.toNat)).toNat % 16 ≠ 0 ∨
        mmu.writePtr (guestAddr (s.cpu.slot rn.toNat)).toNat = none)
      (fun old => (s.addressed rn.toNat).storePair rs.toNat (.ofNat 64 (old % 256 ^ 8))
        (.ofNat 64 (old / 256 ^ 8)))
      (s.addressed rn.toNat).segfault := by
  obtain ⟨hrs, hrt⟩ := extract_pack₂ rs rt (by decide) (by decide)
  refine codeSpec_of_helper (i := .casp true rs.toNat rn.toNat rt.toNat)
    (fun v : BitVec 64 × BitVec 64 => (s.addressed rn.toNat).storePair rs.toNat v.1 v.2)
    rfl (fun t e => ?_) Or.inr spec_cAtomicCas128 fun _ => rfl
  rw [← List.append_nil (_ ++ barrier b')]
  refine runGadgets_call
    (fun v : BitVec 64 × BitVec 64 => (s.addressed rn.toNat).storePair rs.toNat v.1 v.2) id
    (fun t e => ?_) runGadgets_nil
  rw [AtomicGadget.Run, hrs, hrt, push_pop]
  rfl

lemma codeSpec_casp32 :
    CodeSpec mmu (.casp false rs.toNat rn.toNat rt.toNat)
      ([.calcAddrImm (packAt 0 rn ||| (0 : BitVec 64) <<< 8)] ++ barrier b
        ++ [.atomicCasp32 (packAt 0 rs ||| packAt 8 rt)] ++ barrier b') s
      (fun old => if old = (s.packed rs.toNat).toNat % 256 ^ 8 then (s.packed rt.toNat).toNat
        else old)
      (mmu.writePtr (guestAddr (s.cpu.slot rn.toNat)).toNat = none)
      (fun old => (s.addressed rn.toNat).storePair rs.toNat
        (storeLow (s.cpu.slot rs.toNat) ((BitVec.ofNat 64 old).extractLsb' 0 32))
        (storeLow (s.cpu.slot (rs.toNat + 1)) ((BitVec.ofNat 64 old).extractLsb' 32 32)))
      (s.addressed rn.toNat).push.segfault := by
  obtain ⟨hrs, hrt⟩ := extract_pack₂ rs rt (by decide) (by decide)
  have hspec :
      HelperSpec mmu (guestAddr (s.cpu.slot rn.toNat)) (2 ^ AccessSize.dword.val) _ _ _ _ :=
    spec_cAtomicCas (s.packed rs.toNat) (s.packed rt.toNat) .dword
  rw [show 2 ^ AccessSize.dword.val = 8 from rfl] at hspec
  let store (old : BitVec 64) : AtomicState := (s.addressed rn.toNat).storePair rs.toNat
    (storeLow (s.cpu.slot rs.toNat) (old.extractLsb' 0 32))
    (storeLow (s.cpu.slot (rs.toNat + 1)) (old.extractLsb' 32 32))
  have hgadget : ∀ t e, AtomicGadget.Run mmu (s.addressed rn.toNat) t e
      (.atomicCasp32 (packAt 0 rs ||| packAt 8 rt)) ↔ ∃ r,
        CAtomicCas mmu (guestAddr (s.cpu.slot rn.toNat)) (s.packed rs.toNat) (s.packed rt.toNat)
          .dword t r ∧ e = .after store (s.addressed rn.toNat).push.segfault r := by
    intro t e
    rw [AtomicGadget.Run, hrs, hrt, push_pop]
    rfl
  refine codeSpec_of_helper (i := .casp false rs.toNat rn.toNat rt.toNat) store rfl (fun t e => ?_)
    id hspec fun _ => rfl
  rw [← List.append_nil (_ ++ barrier b')]
  exact runGadgets_call store id hgadget runGadgets_nil

end

/-! ### Which operands are in reach -/

def highAddr (a : BitVec 48) : BitVec 64 := a.setWidth 64 ||| 0x8000000000000000

lemma storeLow_msb (v : BitVec 64) (w : BitVec 32) : (storeLow v w).msb = v.msb := by
  rw [storeLow, BitVec.msb_append]
  simp [BitVec.msb_eq_getLsbD_last]

def probe (a : BitVec 48) : AtomicState where
  cpu := { regs := fun _ => highAddr a, sp := highAddr a, pc := 0, nzcv := 0, fp := fun _ => 0,
           tlsPtr := 0, segfaultAddr := 0, segfaultWasWrite := false, trapno := .none, cycle := 0 }
  addr := 0
  tmp := 0
  valueAddr := 0
  sp := 0

variable {b48 : BitVec 48}

lemma highAddr_msb (a : BitVec 48) : (highAddr a).msb = true := by
  rw [highAddr, BitVec.msb_or]
  exact Bool.or_true _

lemma highAddr_ne (a : BitVec 48) : highAddr a ≠ 0 := by
  intro h
  have hmsb := highAddr_msb a
  rw [h] at hmsb
  exact absurd hmsb (by decide)

lemma probe_slot (a : BitVec 48) (r : ℕ) : (probe a).cpu.slot r = highAddr a := by
  rw [JitCpu.slot]
  split_ifs <;> rfl

lemma probe_addr (a : BitVec 48) (r : ℕ) : ((probe a).cpu.slot r).setWidth 48 = a := by
  rw [probe_slot, highAddr, BitVec.setWidth_or, BitVec.setWidth_setWidth_of_le _ (by decide),
    BitVec.setWidth_eq]
  exact BitVec.or_zero

lemma probe_reg {r : ℕ} (h : r ≠ 31) : (probe b48).cpu.reg r = highAddr b48 := if_neg h

lemma probe_upper {r : ℕ} (h : r ≠ 31) : (probe b48).upper r = highAddr b48 :=
  (if_neg h).trans (probe_slot _ _)

lemma guestAddr_slot {r : ℕ} (h : (s.cpu.slot r).setWidth 48 = b48) :
    guestAddr (s.cpu.slot r) = b48.setWidth 64 := by
  rw [guestAddr_eq, h]

def RightAt (mmu : Mmu) (i : AtomicInsn) (gs : List AtomicGadget) (a : BitVec 48) : Prop :=
  ∀ s : AtomicState, (s.cpu.slot i.rn).setWidth 48 = a → TouchesOperand mmu i gs s

lemma rightAt_iff_together {f : AtomicState → ℕ → ℕ} {ok : AtomicState → ℕ → AtomicState}
    (h : ∀ s, CodeSpec mmu i gs s (f s)
      (mmu.writePtr (guestAddr (s.cpu.slot i.rn)).toNat = none) (ok s) (s.addressed i.rn).segfault)
    (hf : ∀ s old, f s old = i.stored s.cpu old)
    (hcpu : ∀ s old, (ok s old).cpu = i.result s.cpu old)
    (hsp : ∀ s old, (ok s old).sp = s.sp) :
    RightAt mmu i gs b48 ↔ Together mmu (b48.setWidth 64) i.bytes := by
  constructor
  · intro hall p hp
    have haddr := guestAddr_slot (probe_addr b48 i.rn)
    have hno : ¬ mmu.writePtr (guestAddr ((probe b48).cpu.slot i.rn)).toNat = none := by
      rw [writePtr_guestAddr, haddr, hp]
      exact Option.some_ne_none p
    have hrun := (h (probe b48)).of_touches (hall _ (probe_addr _ _)) hno (haddr ▸ hp)
      (Nat.pow_pos (by decide) : 0 < 256 ^ i.bytes)
    rw [← haddr]
    exact hrun.1
  · intro htogether s hs
    refine (h s).touches (fun _ => ?_) (fun _ => hf s) (fun _ => hcpu s) (hsp s) fun _ =>
      faultsCleanly_segfault s i.rn
    rw [guestAddr_slot hs]
    exact htogether

lemma together_of_inside (h : a.toNat % pageSize + n ≤ pageSize) : Together mmu a n := by
  intro p hp k hk
  rw [guestPtr_add (by omega), hp]
  rfl

lemma together_of_dvd (h : 16 ∣ a.toNat) : Together mmu a 16 := by
  apply together_of_inside
  rw [pageSize]
  omega

lemma upper_of_ne {r : ℕ} (h : r ≠ 30) (h' : r ≠ 31) : s.upper r = s.cpu.reg (r + 1) := by
  rw [AtomicState.upper, if_neg h', JitCpu.slot_of_ne (by omega), JitCpu.reg_of_ne (by omega)]

lemma storePair_of_ne {r : ℕ} {lo hi : BitVec 64} (h : r ≠ 30) (h' : r ≠ 31) :
    (s.storePair r lo hi).cpu = (s.cpu.setReg r lo).setReg (r + 1) hi := by
  rw [AtomicState.storePair, if_neg h', JitCpu.setSlot_of_ne h', JitCpu.setSlot_of_ne (by omega)]

@[simp] lemma storePair_sp {r : ℕ} {lo hi : BitVec 64} : (s.storePair r lo hi).sp = s.sp := by
  unfold AtomicState.storePair
  split_ifs <;> rfl

lemma rightAt_casp {rs rn rt : BitVec 5} {b b' : BitVec 1} (hrs : 2 ∣ rs.toNat)
    (hrt : 2 ∣ rt.toNat) :
    RightAt mmu (.casp true rs.toNat rn.toNat rt.toNat)
      ([.calcAddrImm (packAt 0 rn ||| (0 : BitVec 64) <<< 8)] ++ barrier b
        ++ [.atomicCasp (packAt 0 rs ||| packAt 8 rt)] ++ barrier b') b48 ↔
      (16 ∣ (b48.setWidth 64).toNat → (mmu.guestPtr .write (b48.setWidth 64)).isSome →
        rs.toNat ≠ 30 ∧ rt.toNat ≠ 30) := by
  have hrs' : rs.toNat ≠ 31 := by omega
  have hrt' : rt.toNat ≠ 31 := by omega
  constructor
  · intro hall halign hsome
    obtain ⟨p, hp⟩ := Option.isSome_iff_exists.mp hsome
    have haddr : guestAddr ((probe b48).cpu.slot rn.toNat) = b48.setWidth 64 :=
      guestAddr_slot (probe_addr _ _)
    have hno : ¬ ((guestAddr ((probe b48).cpu.slot rn.toNat)).toNat % 16 ≠ 0 ∨
        mmu.writePtr (guestAddr ((probe b48).cpu.slot rn.toNat)).toNat = none) := by
      rw [writePtr_guestAddr, haddr, hp, not_or, not_not]
      exact ⟨Nat.mod_eq_zero_of_dvd halign, Option.some_ne_none p⟩
    have hrun (old : ℕ) (hold : old < 256 ^ 16) := (codeSpec_casp (s := probe b48)).of_touches
      (hall _ (probe_addr _ _)) hno (haddr ▸ hp) hold
    have hrs30 : rs.toNat ≠ 30 := by
      -- the upper half of the result would be the stack pointer
      intro h30
      have hsp := congrArg JitCpu.sp (hrun 0 (Nat.pow_pos (by decide))).2.2
      rw [h30] at hsp
      exact highAddr_ne b48 hsp.symm
    refine ⟨hrs30, fun h30 => ?_⟩
    -- the stack pointer would be the upper half of what is stored
    have hvalues : (AtomicInsn.casp true rs.toNat rn.toNat rt.toNat).stored (probe b48).cpu
        (pairLE 8 (highAddr b48).toNat (highAddr b48).toNat) = pairLE 8 (highAddr b48).toNat 0 := by
      show (if _ = pairLE 8 ((probe b48).cpu.reg _).toNat ((probe b48).cpu.reg _).toNat then
        pairLE 8 ((probe b48).cpu.reg _).toNat ((probe b48).cpu.reg _).toNat else _) = _
      rw [probe_reg hrs', probe_reg (by omega), if_pos rfl, probe_reg hrt', h30]
      rfl
    have hbytes : (AtomicInsn.casp true rs.toNat rn.toNat rt.toNat).bytes = 8 + 8 := rfl
    have hstored := (hrun _ (pairLE_lt 8 (highAddr b48).toNat (highAddr b48).toNat)).2.1
    rw [probe_reg hrs', probe_reg hrt', probe_upper hrs', probe_upper hrt', if_pos rfl, hvalues,
      hbytes, Nat.mod_eq_of_lt (pairLE_lt 8 _ _), Nat.mod_eq_of_lt (pairLE_lt 8 _ _)] at hstored
    have hhigh := congrArg (· / 256 ^ 8) hstored
    simp only [pairLE_div] at hhigh
    apply highAddr_ne b48
    apply BitVec.eq_of_toNat_eq
    exact (Nat.mod_eq_of_lt (highAddr b48).isLt).symm.trans hhigh
  · intro hreach s hs
    have haddr : guestAddr (s.cpu.slot rn.toNat) = b48.setWidth 64 := guestAddr_slot hs
    have hpair : ¬ ((guestAddr (s.cpu.slot rn.toNat)).toNat % 16 ≠ 0 ∨
        mmu.writePtr (guestAddr (s.cpu.slot rn.toNat)).toNat = none) →
        16 ∣ (guestAddr (s.cpu.slot rn.toNat)).toNat ∧ rs.toNat ≠ 30 ∧ rt.toNat ≠ 30 := by
      rw [not_or, not_not, writePtr_guestAddr, haddr]
      rintro ⟨halign, hsome⟩
      exact ⟨Nat.dvd_of_mod_eq_zero halign, hreach (Nat.dvd_of_mod_eq_zero halign)
        (Option.isSome_iff_ne_none.mpr hsome)⟩
    refine codeSpec_casp.touches (fun hno => together_of_dvd (hpair hno).1) (fun hno old => ?_)
      (fun hno old => ?_) (fun _ => storePair_sp) fun _ => faultsCleanly_segfault s rn.toNat
    · rw [upper_of_ne (hpair hno).2.1 hrs', upper_of_ne (hpair hno).2.2 hrt']
      rfl
    · exact storePair_of_ne (hpair hno).2.1 hrs'

lemma not_rightAt_casp32 {rs rn rt : BitVec 5} {b b' : BitVec 1} (hrs : 2 ∣ rs.toNat) :
    ¬ RightAt mmu (.casp false rs.toNat rn.toNat rt.toNat)
      ([.calcAddrImm (packAt 0 rn ||| (0 : BitVec 64) <<< 8)] ++ barrier b
        ++ [.atomicCasp32 (packAt 0 rs ||| packAt 8 rt)] ++ barrier b') b48 := by
  intro hall
  have hright := hall (probe b48) (probe_addr _ _)
  by_cases hno : mmu.writePtr (guestAddr ((probe b48).cpu.slot rn.toNat)).toNat = none
  · have hclean := hright.2 _ _ ((codeSpec_casp32.fault _ _).mpr ⟨rfl, hno, rfl⟩)
    exact absurd (show (0 - 16 : BitVec 64) = 0 from hclean.sp) (by decide)
  · obtain ⟨p, hp⟩ := Option.ne_none_iff_exists'.mp hno
    rw [writePtr_guestAddr] at hp
    have hcpu := (codeSpec_casp32.of_touches hright hno hp (Nat.pow_pos (by decide))).2.2
    have hne : rs.toNat ≠ rs.toNat + 1 := by omega
    have hreg := congrFun (congrArg JitCpu.regs hcpu) rs.toNat
    rw [AtomicState.storePair, if_neg (by omega)] at hreg
    have hzero : storeLow (highAddr b48) 0 = 0 := by
      rw [← probe_slot b48 rs.toNat]
      calc storeLow ((probe b48).cpu.slot rs.toNat) 0
          = (((probe b48).cpu.setSlot rs.toNat _).setSlot (rs.toNat + 1) _).regs rs.toNat := by
            rw [JitCpu.setSlot_regs_of_ne hne, JitCpu.setSlot_regs_self (by omega)]
            rfl
        _ = (((probe b48).cpu.setReg rs.toNat 0).setReg (rs.toNat + 1) _).regs rs.toNat := hreg
        _ = 0 := by rw [JitCpu.setReg_regs_of_ne hne, JitCpu.setReg_regs_self (by omega)]
    have hmsb := storeLow_msb (highAddr b48) 0
    rw [hzero, highAddr_msb] at hmsb
    exact absurd hmsb (by decide)

lemma exists_code {code : List AtomicGadget} {q : List AtomicGadget → Prop} :
    (∃ gs, some (AtomicCode.gadgets code) = some (.gadgets gs) ∧ q gs) ↔ q code := by
  constructor
  · rintro ⟨gs, heq, h⟩
    obtain rfl := AtomicCode.gadgets.inj (Option.some.inj heq)
    exact h
  · exact fun h => ⟨code, rfl, h⟩

lemma rmw_right_iff {insn : Insn} {a : BitVec 48} (hrmw : insn &&& 0x3f200c00 = 0x38200000)
    (hop : (insn.bits 12 4).toNat ≤ 8) :
    (∃ gs, genAtomic insn = some (.gadgets gs) ∧
      RightAt mmu (.rmw (insn.bits 30 2).toFin (insn.bits 12 4).toNat insn.rm insn.rn insn.rt)
        gs a) ↔
      Together mmu (a.setWidth 64) (2 ^ (insn.bits 30 2).toFin.val) := by
  rw [genAtomic, if_pos hrmw, if_neg (Nat.not_lt.mpr hop), exists_code]
  exact rightAt_iff_together (fun _ => codeSpec_rmw hop) (fun _ _ => rmwValue_eq _ _ _ _)
    (fun _ _ => rfl) fun _ _ => rfl

def apart : Mmu where
  translate page _ := if page = 0 then some 0 else if page = 1 then some 0x10000 else none

end ShellBox
