import ShellBox.Kernel.Memory.Lifetime

/-!
# The TLB

Each thread keeps host pointers to the pages it has used. An entry carries the change count of
the address space it was filled at, and a hit accepts it only at that count. A miss translates
the address with `mem_ptr` between two loads of the count and tries again when they differ, at
most nine times.

The steps of a miss are those of one thread; other threads change the page table, and mark
pages whose code they compile, between any two of them.
-/

namespace ShellBox

open Function World

def tlbBits : ℕ := 13
def tlbSize : ℕ := 2 ^ tlbBits

def tlbIndex (addr : ℕ) : ℕ := (addr >>> 12 ^^^ addr >>> (12 + tlbBits)) % tlbSize

def tlbPage (addr : ℕ) : ℕ := addr / pageSize * pageSize

/-- `TLB_PAGE_EMPTY`, which is not the address of a page. -/
def tlbPageEmpty : ℕ := 1

/-- `struct tlb_entry`. The source keeps `host` as its distance from the guest page,
`data_minus_addr`. -/
structure TlbEntry where
  page : ℕ
  pageIfWritable : ℕ
  host : HostPtr
  gen : ℕ

/-- The entry `tlb_flush` leaves. -/
def TlbEntry.empty : TlbEntry :=
  { page := tlbPageEmpty, pageIfWritable := tlbPageEmpty, host := ⟨0, 0⟩, gen := 0 }

/-- `entry.data_minus_addr + addr`. -/
def TlbEntry.hostAddr (e : TlbEntry) (addr : ℕ) : HostPtr :=
  { e.host with offset := e.host.offset + pgoffset addr }

/-- `struct tlb`, without the caches of code. `mem_changes` has 32 bits. -/
structure Tlb where
  dirtyPage : ℕ
  memChanges : ℕ
  segfaultAddr : ℕ
  entries : ℕ → TlbEntry

namespace Tlb

/-- `tlb_flush`. -/
def flush (changes : ℕ) (t : Tlb) : Tlb :=
  { t with memChanges := changes % 2 ^ 32, entries := fun _ => .empty }

/-- `tlb_refresh` in the same address space. -/
def refresh (changes : ℕ) (t : Tlb) : Tlb :=
  if t.memChanges = changes then t else { t with dirtyPage := tlbPageEmpty }.flush changes

/-- A hit of `__tlb_read_ptr`. -/
def readHit (changes addr : ℕ) (t : Tlb) : Option HostPtr :=
  let entry := t.entries (tlbIndex addr)
  if entry.page = tlbPage addr ∧ entry.gen = changes then some (entry.hostAddr addr) else none

/-- A hit of `__tlb_write_ptr`. -/
def writeHit (changes addr : ℕ) (t : Tlb) : Option HostPtr :=
  let entry := t.entries (tlbIndex addr)
  if entry.pageIfWritable = tlbPage addr ∧ entry.gen = changes then some (entry.hostAddr addr)
  else none

def fill (addr gen : ℕ) (ptr : HostPtr) (writable : Bool) (t : Tlb) : Tlb :=
  { t with
    dirtyPage := tlbPage addr
    entries := update t.entries (tlbIndex addr)
      { page := tlbPage addr
        pageIfWritable := if writable then tlbPage addr else tlbPageEmpty
        host := ptr
        gen } }

end Tlb

/-! ### A miss, step by step -/

/-- Where a thread is in `tlb_handle_miss` or, from `lookup` to `nofault`, in the `mem_ptr` it
calls. -/
inductive MissPhase where
  /-- The head of the loop. -/
  | load
  | lookup (gen : ℕ)
  /-- Waiting for the lock to grow the stack below page `p`. -/
  | grow (gen p : ℕ)
  /-- Waiting for the lock to give a reserved page its entry. -/
  | reserve (gen : ℕ) (flags : Flags)
  /-- `have_entry`, for a store. -/
  | prepare (gen : ℕ)
  /-- Waiting for the lock to copy the page. -/
  | copy (gen : ℕ)
  | nofault (gen : ℕ)
  /-- Before the second load of the count. -/
  | recheck (gen : ℕ) (ptr : Option HostPtr)
  /-- The exit that accepts a translation that was overtaken. -/
  | giveUp (ptr : Option HostPtr)
  | stamp (gen : ℕ) (ptr : Option HostPtr)
  /-- In `translate_write_nofault`, after the look at `P_CODE`. -/
  | probe (gen : ℕ) (ptr : HostPtr) (isCode : Bool)
  deriving DecidableEq, Repr

/-- A call of `tlb_handle_miss`. -/
structure Miss where
  addr : ℕ
  write : Bool
  attempt : ℕ
  phase : MissPhase
  deriving DecidableEq, Repr

namespace Miss

def type (m : Miss) : AccessType := if m.write then .write else .read

/-- `have_entry` does nothing for a load. -/
def haveEntry (m : Miss) (gen : ℕ) : Option Miss :=
  some { m with phase := if m.write then .prepare gen else .nofault gen }

def checkReservation (s : ℕ) (m : Miss) (gen : ℕ) (w : World) : Option Miss :=
  match memFindReservation (w.mem s).reservations (page m.addr) with
  | none => some { m with phase := .recheck gen none }
  | some res => some { m with phase := .reserve gen res.flags }

/-- One step of the thread; `none` is the return from `tlb_handle_miss`. -/
def step (h : Host) (s : ℕ) (m : Miss) (w : World) (t : Tlb) : World × Tlb × Option Miss :=
  let goto (phase : MissPhase) : Option Miss := some { m with phase }
  match m.phase with
  | .load =>
    let gen := (w.mem s).changes
    let t := if gen ≠ t.memChanges then t.flush gen else t
    (w, { t with memChanges := gen % 2 ^ 32 }, goto (.lookup gen))
  | .lookup gen =>
    let pt := (w.mem s).pt
    match pt.memPt (page m.addr) with
    | some _ => (w, t, m.haveEntry gen)
    | none =>
      match pt.nextMapped memPages (pt.memNextPage (page m.addr)) with
      | none => (w, t, m.checkReservation s gen w)
      | some p =>
        if ((pt.memPt p).map (·.flags.growsdown)).getD false then
          (w, t, goto (if withinStackLimit h (page m.addr) then .grow gen p else .recheck gen none))
        else (w, t, m.checkReservation s gen w)
  | .grow gen p =>
    if isMapped w s (page m.addr) then (w, t, m.haveEntry gen)
    else (growStack h s (page m.addr) p w, t, m.haveEntry gen)
  | .reserve gen flags =>
    if isMapped w s (page m.addr) then (w, t, m.haveEntry gen)
    else
      ((ptMapNothing h s (page m.addr) 1 (flags &&& ~~~pGrowsdown) (w.addAnon 1)).1, t, m.haveEntry gen)
  | .prepare gen =>
    match (w.mem s).pt.memPt (page m.addr) with
    | none => (w, t, goto (.recheck gen none))
    | some e =>
      if e.flags.write then
        (clearCode s (page m.addr) e.flags w, t, goto (if e.flags.cow then .copy gen else .nofault gen))
      else (w, t, goto (.recheck gen none))
  | .copy gen => (copyForWrite h s (page m.addr) w, t, goto (.nofault gen))
  | .nofault gen => (w, t, goto (.recheck gen (memPtrNofault w s (tlbPage m.addr) m.type)))
  | .recheck gen ptr =>
    if (w.mem s).changes = gen then (w, t, goto (.stamp gen ptr))
    else if 8 ≤ m.attempt then (w, t, goto (.giveUp ptr))
    else (w, t, some { m with attempt := m.attempt + 1, phase := .load })
  | .giveUp ptr =>
    let gen := (w.mem s).changes
    (w, { t with memChanges := gen % 2 ^ 32 }, goto (.stamp gen ptr))
  | .stamp _ none => (w, { t with segfaultAddr := m.addr }, none)
  | .stamp gen (some ptr) =>
    if m.write then (w, t.fill m.addr gen ptr true, none)
    else (w, t, goto (.probe gen ptr (mmuCodePageIntact s (page m.addr) w)))
  | .probe gen ptr isCode =>
    let writable := !isCode && (memPtrNofault w s (tlbPage m.addr) .write).isSome
    (w, t.fill m.addr gen ptr writable, none)

def next (h : Host) (s : ℕ) : World × Tlb × Option Miss → World × Tlb × Option Miss
  | (w, t, some m) => m.step h s w t
  | (w, t, none) => (w, t, none)

end Miss

/-! ### The phases of a translation, uninterrupted -/

lemma page_tlbPage (addr : ℕ) : page (tlbPage addr) = page addr :=
  Nat.mul_div_cancel _ (by decide)

section Uninterrupted

variable {h : Host} {s : ℕ} {w w' : World} {t : Tlb} {m : Miss} {ptr : Option HostPtr}
  {r r' r'' : World × Tlb × Option Miss}

def MissReaches (h : Host) (s : ℕ) (r r' : World × Tlb × Option Miss) : Prop :=
  ∃ n, (Miss.next h s)^[n] r = r'

lemma MissReaches.head (heq : Miss.next h s r = r') (h' : MissReaches h s r' r'') :
    MissReaches h s r r'' := by
  obtain ⟨n, hn⟩ := h'
  exact ⟨n + 1, by rw [iterate_succ_apply, heq, hn]⟩

lemma MissReaches.refl : MissReaches h s r r := ⟨0, rfl⟩

lemma missReaches_nofault {gen : ℕ} (hm : m.phase = .nofault gen) :
    MissReaches h s (w, t, some m) (w, t, some { m with
      phase := .recheck gen (memPtrNofault w s (tlbPage m.addr) m.type) }) := by
  obtain ⟨addr, write, attempt, phase⟩ := m
  obtain rfl := hm
  exact .head rfl .refl

lemma copyForWrite_clearCode {p : ℕ} {e : PtEntry} (he : (w.mem s).pt.memPt p = some e)
    (hcow : e.flags.cow = false) :
    copyForWrite h s p (clearCode s p e.flags w) = clearCode s p e.flags w := by
  have hentry : ∃ e', ((clearCode s p e.flags w).mem s).pt.memPt p = some e' ∧
      e'.flags.cow = false := by
    have hslot : w.slot (s, ptIndex p) = some e := he
    unfold clearCode
    split_ifs
    · refine ⟨{ e with flags := e.flags &&& ~~~pCode }, ?_, by simp [pCode, hcow]⟩
      rw [memPt_eq_slot, memChanged_slot, setFlags_slot, update_self, hslot]
      rfl
    · refine ⟨e, ?_, hcow⟩
      rw [memPt_eq_slot, setFlags_slot, update_self, hslot]
      rfl
  obtain ⟨e', he', hcow'⟩ := hentry
  simp [copyForWrite, he', hcow']

/-- What `mem_ptr` does after `have_entry`, as the state in which the count is loaded again. -/
def afterHaveEntry (h : Host) (s gen : ℕ) (m : Miss) (t : Tlb) (w : World) :
    World × Tlb × Option Miss :=
  let done (w : World) (ptr : Option HostPtr) : World × Tlb × Option Miss :=
    (w, t, some { m with phase := .recheck gen ptr })
  if m.write then
    match prepareWrite h s (page m.addr) false w with
    | (w, false) => done w none
    | (w, true) => done w (memPtrNofault w s (tlbPage m.addr) .write)
  else done w (memPtrNofault w s (tlbPage m.addr) .read)

lemma missReaches_haveEntry (gen : ℕ) (m : Miss) (t : Tlb) (w : World) :
    MissReaches h s (w, t, m.haveEntry gen) (afterHaveEntry h s gen m t w) := by
  obtain ⟨addr, write, attempt, phase⟩ := m
  cases write with
  | false => exact missReaches_nofault rfl
  | true =>
    simp only [afterHaveEntry, prepareWrite, Miss.haveEntry, if_true]
    cases he : (w.mem s).pt.memPt (page addr) with
    | none =>
      have hnone : memPtrNofault w s (tlbPage addr) .write = none := by
        simp [memPtrNofault, page_tlbPage, he]
      simp only [hnone]
      refine .head ?_ .refl
      simp [Miss.next, Miss.step, he]
    | some e =>
      cases hwrite : e.flags.write with
      | false =>
        refine .head ?_ .refl
        simp [Miss.next, Miss.step, he, hwrite]
      | true =>
        simp only [hwrite, Bool.not_false, Bool.not_true, Bool.and_false, Bool.false_eq_true,
          if_false]
        cases hcow : e.flags.cow with
        | false =>
          have hnext : Miss.next h s (w, t, some ⟨addr, true, attempt, .prepare gen⟩) =
              (clearCode s (page addr) e.flags w, t, some ⟨addr, true, attempt, .nofault gen⟩) := by
            simp [Miss.next, Miss.step, he, hwrite, hcow]
          rw [copyForWrite_clearCode he hcow]
          exact .head hnext (missReaches_nofault rfl)
        | true =>
          have hnext : Miss.next h s (w, t, some ⟨addr, true, attempt, .prepare gen⟩) =
              (clearCode s (page addr) e.flags w, t, some ⟨addr, true, attempt, .copy gen⟩) := by
            simp [Miss.next, Miss.step, he, hwrite, hcow]
          exact .head hnext (.head rfl (missReaches_nofault rfl))

lemma recheck_memPtr (gen addr attempt : ℕ) (write : Bool) (t : Tlb) {ok : Bool}
    (hfault : faultIn h s (page addr) w = (w', ok)) :
    let result := memPtr h s (tlbPage addr) (if write then .write else .read) w
    ((result.1, t, some ⟨addr, write, attempt, .recheck gen result.2⟩) :
        World × Tlb × Option Miss) =
      if ok then afterHaveEntry h s gen ⟨addr, write, attempt, .lookup gen⟩ t w'
      else (w', t, some ⟨addr, write, attempt, .recheck gen none⟩) := by
  simp only [memPtr, page_tlbPage, hfault]
  cases ok with
  | false => rfl
  | true =>
    cases write with
    | false => rfl
    | true =>
      simp only [if_true, reduceCtorEq, if_false, afterHaveEntry, decide_false]
      cases prepareWrite h s (page addr) false w' with
      | mk w'' ok => cases ok <;> rfl

/-- Without other threads, the phases of a miss are `mem_ptr` of the missed page. -/
lemma missReaches_memPtr (gen addr attempt : ℕ) (write : Bool) (t : Tlb) (w : World) :
    let result := memPtr h s (tlbPage addr) (if write then .write else .read) w
    MissReaches h s (w, t, some ⟨addr, write, attempt, .lookup gen⟩)
      (result.1, t, some ⟨addr, write, attempt, .recheck gen result.2⟩) := by
  intro result
  have hback : ∀ {w' ok}, faultIn h s (page addr) w = (w', ok) → _ :=
    fun hfault => recheck_memPtr (h := h) (s := s) gen addr attempt write t hfault
  cases he : (w.mem s).pt.memPt (page addr) with
  | some e =>
    rw [hback (show faultIn h s (page addr) w = (w, true) by simp [faultIn, he])]
    refine .head ?_ (missReaches_haveEntry gen _ t w)
    simp [Miss.next, Miss.step, he]
  | none =>
    have hunmapped : isMapped w s (page addr) = false := by simp [isMapped, he]
    have hreserve : faultIn h s (page addr) w = mapReserved h s (page addr) w →
        Miss.next h s (w, t, some ⟨addr, write, attempt, .lookup gen⟩) =
          (w, t, Miss.checkReservation s ⟨addr, write, attempt, .lookup gen⟩ gen w) →
        MissReaches h s (w, t, some ⟨addr, write, attempt, .lookup gen⟩)
          (result.1, t, some ⟨addr, write, attempt, .recheck gen result.2⟩) := by
      intro hfault hnext
      cases hres : memFindReservation (w.mem s).reservations (page addr) with
      | none =>
        have hmap : mapReserved h s (page addr) w = (w, false) := by simp only [mapReserved, hres]
        rw [hback (hfault.trans hmap)]
        exact .head (hnext.trans (by simp [Miss.checkReservation, hres])) .refl
      | some res =>
        have hmap : mapReserved h s (page addr) w = ((ptMapNothing h s (page addr) 1
            (res.flags &&& ~~~pGrowsdown) (w.addAnon 1)).1, true) := by
          simp only [mapReserved, hres]
        rw [hback (hfault.trans hmap)]
        refine .head hnext (.head ?_ (missReaches_haveEntry gen _ t _))
        simp [Miss.next, Miss.step, Miss.checkReservation, hres, hunmapped, Miss.haveEntry]
    cases hp : (w.mem s).pt.nextMapped memPages ((w.mem s).pt.memNextPage (page addr)) with
    | none =>
      apply hreserve
      · simp [faultIn, he, hp]
      · simp only [Miss.next, Miss.step, he, hp]
    | some p =>
      by_cases hgrow : (((w.mem s).pt.memPt p).map (·.flags.growsdown)).getD false = true
      swap
      · apply hreserve
        · simp only [faultIn, he, hp, if_neg hgrow]
        · simp only [Miss.next, Miss.step, he, hp, if_neg hgrow]
      by_cases hlimit : withinStackLimit h (page addr) = true
      · rw [hback (show faultIn h s (page addr) w = (growStack h s (page addr) p w, true) by
          simp only [faultIn, he, hp, if_pos hgrow, if_pos hlimit])]
        have hnext : Miss.next h s (w, t, some ⟨addr, write, attempt, .lookup gen⟩) =
            (w, t, some ⟨addr, write, attempt, .grow gen p⟩) := by
          simp only [Miss.next, Miss.step, he, hp, if_pos hgrow, if_pos hlimit]
        refine .head hnext (.head ?_ (missReaches_haveEntry gen _ t _))
        simp [Miss.next, Miss.step, hunmapped, Miss.haveEntry]
      · rw [hback (show faultIn h s (page addr) w = (w, false) by
          simp only [faultIn, he, hp, if_pos hgrow, if_neg hlimit])]
        refine .head ?_ .refl
        simp only [Miss.next, Miss.step, he, hp, if_pos hgrow, if_neg hlimit]
        rfl

/-! ### A miss, uninterrupted -/

lemma MissReaches.trans (h' : MissReaches h s r r') (h'' : MissReaches h s r' r'') :
    MissReaches h s r r'' := by
  obtain ⟨n, rfl⟩ := h'
  obtain ⟨m, rfl⟩ := h''
  exact ⟨m + n, iterate_add_apply _ m n r⟩

/-- What the guest gets of a TLB after a miss at `addr`: a hit, or the address of a fault. -/
def Tlb.Answers (t : Tlb) (changes addr : ℕ) (write : Bool) (ptr : Option HostPtr) : Prop :=
  (ptr = none → t.segfaultAddr = addr) ∧
    ∀ p, ptr = some p →
      t.readHit changes addr = some { p with offset := p.offset + pgoffset addr } ∧
      (write → t.writeHit changes addr = some { p with offset := p.offset + pgoffset addr })

lemma answers_fill (t : Tlb) (changes addr : ℕ) (write : Bool) (p : HostPtr) (writable : Bool)
    (hw : write → writable) :
    (t.fill addr changes p writable).Answers changes addr write (some p) := by
  refine ⟨fun hnone => (by cases hnone), fun q hq => ?_⟩
  obtain rfl := Option.some.inj hq
  constructor
  · simp [Tlb.readHit, Tlb.fill, TlbEntry.hostAddr]
  · intro hwrite
    simp [Tlb.writeHit, Tlb.fill, TlbEntry.hostAddr, hw hwrite]

lemma missReaches_stamp (addr attempt : ℕ) (write : Bool) (ptr : Option HostPtr) (t : Tlb)
    (w : World) :
    ∃ t', MissReaches h s (w, t, some ⟨addr, write, attempt, .stamp (w.mem s).changes ptr⟩)
      (w, t', none) ∧ t'.Answers (w.mem s).changes addr write ptr := by
  cases ptr with
  | none => exact ⟨_, .head rfl .refl, fun _ => rfl, fun p hp => by cases hp⟩
  | some p =>
    cases write with
    | true => exact ⟨_, .head rfl .refl, answers_fill t _ addr true p true fun _ => rfl⟩
    | false => exact ⟨_, .head rfl (.head rfl .refl),
        answers_fill t _ addr false p _ fun hw => by cases hw⟩

/-- The type of the access, as it is passed to `mem_ptr`. -/
def accessOf (write : Bool) : AccessType := if write then .write else .read

/-- A round of the loop: it ends the call, or the next attempt begins with what `mem_ptr` has made
of the address space. -/
lemma missReaches_round (addr attempt : ℕ) (write : Bool) (t : Tlb)
    (hr : memPtr h s (tlbPage addr) (accessOf write) w = (w', ptr)) :
    (∃ t', MissReaches h s (w, t, some ⟨addr, write, attempt, .load⟩) (w', t', none) ∧
      t'.Answers (w'.mem s).changes addr write ptr) ∨
    attempt < 8 ∧ ∃ t', MissReaches h s (w, t, some ⟨addr, write, attempt, .load⟩)
      (w', t', some ⟨addr, write, attempt + 1, .load⟩) := by
  obtain ⟨t₁, hload⟩ : ∃ t₁, Miss.next h s (w, t, some ⟨addr, write, attempt, .load⟩) =
      (w, t₁, some ⟨addr, write, attempt, .lookup (w.mem s).changes⟩) := ⟨_, rfl⟩
  have hmem := missReaches_memPtr (h := h) (s := s) (w.mem s).changes addr attempt write t₁ w
  rw [show memPtr h s (tlbPage addr) (if write then .write else .read) w = (w', ptr) from hr]
    at hmem
  have hround := MissReaches.head hload hmem
  by_cases hgen : (w'.mem s).changes = (w.mem s).changes
  · obtain ⟨t', hstamp, hans⟩ := missReaches_stamp (h := h) (s := s) addr attempt write ptr t₁ w'
    refine Or.inl ⟨t', hround.trans (.head ?_ hstamp), hans⟩
    simp [Miss.next, Miss.step, hgen]
  · by_cases hcap : 8 ≤ attempt
    · obtain ⟨t', hstamp, hans⟩ := missReaches_stamp (h := h) (s := s) addr attempt write ptr
        { t₁ with memChanges := (w'.mem s).changes % 2 ^ 32 } w'
      have hgive : Miss.next h s (w', t₁, some ⟨addr, write, attempt, .giveUp ptr⟩) =
          (w', { t₁ with memChanges := (w'.mem s).changes % 2 ^ 32 },
            some ⟨addr, write, attempt, .stamp (w'.mem s).changes ptr⟩) := rfl
      refine Or.inl ⟨t', hround.trans (.head ?_ (.head hgive hstamp)), hans⟩
      simp [Miss.next, Miss.step, hgen, hcap]
    · refine Or.inr ⟨not_le.1 hcap, t₁, hround.trans (.head ?_ .refl)⟩
      simp [Miss.next, Miss.step, hgen, hcap]

/-- **A miss, undisturbed**: `tlb_handle_miss` returns after at most nine translations, and what the
last one finds is what the TLB then says about the address. -/
theorem tlbHandleMiss_returns (h : Host) (s addr : ℕ) (write : Bool) (t : Tlb) (w : World) :
    ∃ k ≤ 8, ∃ w₁ w' ptr t',
      w₁ = (fun w => (memPtr h s (tlbPage addr) (accessOf write) w).1)^[k] w ∧
      memPtr h s (tlbPage addr) (accessOf write) w₁ = (w', ptr) ∧
      MissReaches h s (w, t, some ⟨addr, write, 0, .load⟩) (w', t', none) ∧
      t'.Answers (w'.mem s).changes addr write ptr := by
  suffices hall : ∀ n attempt t w, attempt + n = 8 → ∃ k ≤ n, ∃ w₁ w' ptr t',
      w₁ = (fun w => (memPtr h s (tlbPage addr) (accessOf write) w).1)^[k] w ∧
      memPtr h s (tlbPage addr) (accessOf write) w₁ = (w', ptr) ∧
      MissReaches h s (w, t, some ⟨addr, write, attempt, .load⟩) (w', t', none) ∧
      t'.Answers (w'.mem s).changes addr write ptr from hall 8 0 t w rfl
  intro n
  induction n with
  | zero =>
    intro attempt t w hn
    rcases missReaches_round addr attempt write t (w := w) (h := h) (s := s) rfl with
      ⟨t', hend, hans⟩ | ⟨hlt, -⟩
    · exact ⟨0, le_rfl, w, _, _, t', rfl, rfl, hend, hans⟩
    · omega
  | succ n ih =>
    intro attempt t w hn
    rcases missReaches_round addr attempt write t (w := w) (h := h) (s := s) rfl with
      ⟨t', hend, hans⟩ | ⟨-, t', hnext⟩
    · exact ⟨0, Nat.zero_le _, w, _, _, t', rfl, rfl, hend, hans⟩
    · obtain ⟨k, hk, w₁, w', ptr, t'', hw₁, hptr, hend, hans⟩ := ih (attempt + 1) t' _ (by omega)
      exact ⟨k + 1, by omega, w₁, w', ptr, t'', hw₁.trans (iterate_succ_apply _ k w).symm, hptr,
        hnext.trans hend, hans⟩

end Uninterrupted

/-! ### A thread among others -/

/-- The address spaces, one thread's TLB and its pending miss, and the pages of its address
space that hold compiled code. -/
structure TlbState where
  world : World
  compiled : List ℕ
  tlb : Tlb
  miss : Option Miss

inductive TlbAct where
  /-- An operation of some thread on the page tables. -/
  | memOp (h : Host) (op : MemOp)
  /-- Some thread marks a page and inserts a block compiled from it. -/
  | compile (page : ℕ)
  /-- This thread starts to run guest code. -/
  | refresh
  /-- This thread loads or stores. -/
  | access (addr : ℕ) (write : Bool)
  /-- The next step of this thread's miss. -/
  | next (h : Host)

namespace TlbState

def init : TlbState where
  world := .init
  compiled := []
  tlb := { dirtyPage := tlbPageEmpty, memChanges := 0, segfaultAddr := 0, entries := fun _ => .empty }
  miss := none

/-- Blocks of a page are dropped before its `P_CODE` is, or with its entry. -/
def dropBlocks (s : ℕ) (st : TlbState) : TlbState :=
  { st with compiled := st.compiled.filter (mmuCodePageIntact s · st.world) }

/-- `__tlb_read_ptr` or `__tlb_write_ptr`. -/
def access (s addr : ℕ) (write : Bool) (st : TlbState) : TlbState :=
  let changes := (st.world.mem s).changes
  let miss : TlbState := { st with miss := some { addr, write, attempt := 0, phase := .load } }
  if write then
    match st.tlb.writeHit changes addr with
    | some _ => { st with tlb := { st.tlb with dirtyPage := tlbPage addr } }
    | none => miss
  else
    match st.tlb.readHit changes addr with
    | some _ => st
    | none => miss

/-- One step of the system, in address space `s`. -/
def step (s : ℕ) (st : TlbState) : TlbAct → TlbState
  | .memOp h op => dropBlocks s { st with world := MemOp.step st.world (h, op) }
  | .compile page =>
    { st with
      world := (mmuMarkCodePage s page st.world).1
      compiled := page :: st.compiled }.dropBlocks s
  | .refresh =>
    match st.miss with
    | none => { st with tlb := st.tlb.refresh (st.world.mem s).changes }
    | some _ => st
  | .access addr write =>
    match st.miss with
    | none => st.access s addr write
    | some _ => st
  | .next h =>
    match st.miss with
    | none => st
    | some m =>
      let (world, tlb, miss) := m.step h s st.world st.tlb
      { st with world, tlb, miss }.dropBlocks s

end TlbState

end ShellBox
