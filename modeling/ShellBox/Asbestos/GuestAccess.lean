import ShellBox.Asbestos.Atomic
import ShellBox.Asbestos.Dispatch

/-!
# How gadgets access guest memory

A load or store gadget has its guest address in `_addr`. `read_prep` and `write_prep` put a host
pointer there instead: into the page, or, when the access goes on into the next page, to a buffer in
the frame that is filled from both pages or written back to both by `write_done`.

The page table has nine bits of the page number for each of its four levels, so an address counts
only modulo `2 ^ 48`. The translation does not change while the gadgets of one instruction run.
-/

namespace ShellBox

open Function

namespace Mmu

def guestPtr (mmu : Mmu) (kind : AccessType) (a : BitVec 64) : Option ℕ :=
  (mmu.translate (a.toNat / pageSize % 2 ^ 36) kind).map (· + a.toNat % pageSize)

def Mapped (mmu : Mmu) (kind : AccessType) (a : BitVec 64) (n : ℕ) : Prop :=
  ∀ i < n, (mmu.guestPtr kind (a + .ofNat 64 i)).isSome

def guestBytes (mmu : Mmu) (m : HostMem) (a : BitVec 64) (i : ℕ) : UInt8 :=
  ((mmu.guestPtr .read (a + .ofNat 64 i)).map m).getD 0

def guestWrite (mmu : Mmu) (m : HostMem) (a : BitVec 64) (bytes : ℕ → UInt8) : ℕ → Option HostMem
  | 0 => some m
  | n + 1 => do
    let m' ← mmu.guestWrite m a bytes n
    let p ← mmu.guestPtr .write (a + .ofNat 64 n)
    return update m' p (bytes n)

end Mmu

/-- `(PAGE(addr) + 1) << PAGE_BITS` -/
def nextPage (a : BitVec 64) : BitVec 64 := .ofNat 64 ((a.toNat / pageSize + 1) * pageSize)

/-- `memcpy` of `n` bytes. -/
def copyBytes (m : HostMem) (dst : ℕ) (src : ℕ → UInt8) (n : ℕ) : HostMem :=
  fun i => if dst ≤ i ∧ i < dst + n then src (i - dst) else m i

structure HostStore where
  off : ℕ
  bytes : ℕ
  value : ℕ

def storeAll (m : HostMem) (p : ℕ) (stores : List HostStore) : HostMem :=
  stores.foldl (fun m st => storeLE m (p + st.off) st.bytes st.value) m

/-- What the gadgets work on: the guest's registers and the host's memory, `_addr` and `_tmp`, and
of the frame `LOCAL_value_addr` and `LOCAL_value` with its address. -/
structure JitState where
  cpu : JitCpu
  mem : HostMem
  addr : BitVec 64
  tmp : BitVec 64
  valueAddr : BitVec 64
  value : ℕ → UInt8
  valuePtr : BitVec 64

namespace JitState

def Crosses (a : BitVec 64) (n : ℕ) : Prop := pageSize - n < a.toNat % pageSize

instance (a : BitVec 64) (n : ℕ) : Decidable (Crosses a n) := inferInstanceAs (Decidable (_ < _))

/-- `read_prep`, and the bytes that are then at `_addr`; `none` if the gadget exits with a fault. -/
def readPrep (mmu : Mmu) (n : ℕ) (s : JitState) : Option (JitState × (ℕ → UInt8)) :=
  if Crosses s.addr n then do
    let ptr1 ← mmu.guestPtr .read s.addr
    let ptr2 ← mmu.guestPtr .read (nextPage s.addr)
    let part1 := pageSize - s.addr.toNat % pageSize
    let value := copyBytes (copyBytes s.value 0 (fun i => s.mem (ptr1 + i)) part1) part1
      (fun i => s.mem (ptr2 + i)) (n - part1)
    return ({ s with value, valueAddr := s.addr, addr := s.valuePtr }, value)
  else do
    let ptr ← mmu.guestPtr .read s.addr
    return ({ s with addr := .ofNat 64 ptr }, fun i => s.mem (ptr + i))

/-- `write_prep`, the stores of the gadget, and `write_done`. -/
def writeAccess (mmu : Mmu) (n : ℕ) (stores : List HostStore) (s : JitState) : Option JitState :=
  if Crosses s.addr n then do
    let value := storeAll s.value 0 stores
    let ptr1 ← mmu.guestPtr .write s.addr
    let ptr2 ← mmu.guestPtr .write (nextPage s.addr)
    let part1 := pageSize - s.addr.toNat % pageSize
    let mem := copyBytes (copyBytes s.mem ptr1 value part1) ptr2 (fun i => value (part1 + i))
      (n - part1)
    return { s with mem, value, valueAddr := s.addr, addr := s.valuePtr }
  else do
    let ptr ← mmu.guestPtr .write s.addr
    return { s with mem := storeAll s.mem ptr stores, addr := .ofNat 64 ptr }

end JitState

/-! ### Addresses and pages -/

variable {mmu : Mmu} {kind : AccessType} {a : BitVec 64} {i n p : ℕ} {m : HostMem}

lemma toNat_add_of_lt (h : a.toNat % pageSize + i < pageSize) :
    (a + .ofNat 64 i).toNat = a.toNat + i := by
  have ha := a.isLt
  rw [pageSize] at h
  rw [BitVec.toNat_add, BitVec.toNat_ofNat]
  omega

lemma guestPtr_add (h : a.toNat % pageSize + i < pageSize) :
    mmu.guestPtr kind (a + .ofNat 64 i) = (mmu.guestPtr kind a).map (· + i) := by
  have hdiv : (a.toNat + i) / pageSize = a.toNat / pageSize := by
    rw [pageSize] at h ⊢
    omega
  have hmod : (a.toNat + i) % pageSize = a.toNat % pageSize + i := by
    rw [pageSize] at h ⊢
    omega
  rw [Mmu.guestPtr, Mmu.guestPtr, toNat_add_of_lt h, hdiv, hmod, Option.map_map]
  exact congrFun (congrArg _ (funext fun x => (Nat.add_assoc x _ i).symm)) _

lemma nextPage_mod (a : BitVec 64) : (nextPage a).toNat % pageSize = 0 := by
  rw [nextPage, BitVec.toNat_ofNat, pageSize]
  omega

lemma add_eq_nextPage_add (h : pageSize ≤ a.toNat % pageSize + i) :
    a + .ofNat 64 i = nextPage a + .ofNat 64 (i - (pageSize - a.toNat % pageSize)) := by
  apply BitVec.eq_of_toNat_eq
  have ha := a.isLt
  rw [nextPage, BitVec.toNat_add, BitVec.toNat_add, BitVec.toNat_ofNat, BitVec.toNat_ofNat,
    BitVec.toNat_ofNat]
  rw [pageSize] at h ⊢
  omega

lemma guestPtr_nextPage_add (h : pageSize ≤ a.toNat % pageSize + i) (hi : i < pageSize) :
    mmu.guestPtr kind (a + .ofNat 64 i) =
      (mmu.guestPtr kind (nextPage a)).map (· + (i - (pageSize - a.toNat % pageSize))) := by
  rw [add_eq_nextPage_add h, guestPtr_add]
  rw [nextPage_mod, pageSize] at *
  omega

/-! ### Which accesses are mapped -/

lemma mapped_of_not_crosses (hn : 0 < n) (hpage : n ≤ pageSize) (h : ¬ JitState.Crosses a n) :
    mmu.Mapped kind a n ↔ (mmu.guestPtr kind a).isSome := by
  rw [JitState.Crosses, Nat.not_lt] at h
  constructor
  · intro hall
    simpa using hall 0 hn
  · intro hsome i hi
    rw [guestPtr_add (by omega), Option.isSome_map]
    exact hsome

lemma mapped_of_crosses (hpage : n ≤ pageSize) (h : JitState.Crosses a n) :
    mmu.Mapped kind a n ↔
      (mmu.guestPtr kind a).isSome ∧ (mmu.guestPtr kind (nextPage a)).isSome := by
  have hoff : a.toNat % pageSize < pageSize := Nat.mod_lt _ (by decide)
  rw [JitState.Crosses] at h
  constructor
  · intro hall
    refine ⟨by simpa using hall 0 (by omega), ?_⟩
    have hpart := hall (pageSize - a.toNat % pageSize) (by omega)
    rwa [guestPtr_nextPage_add (by omega) (by omega), Option.isSome_map] at hpart
  · rintro ⟨h1, h2⟩ i hi
    by_cases hin : a.toNat % pageSize + i < pageSize
    · rw [guestPtr_add hin, Option.isSome_map]
      exact h1
    · rw [guestPtr_nextPage_add (by omega) (by omega), Option.isSome_map]
      exact h2

lemma guestBytes_of_ptr (hp : mmu.guestPtr .read a = some p)
    (h : a.toNat % pageSize + i < pageSize) : mmu.guestBytes m a i = m (p + i) := by
  rw [Mmu.guestBytes, guestPtr_add h, hp]
  rfl

lemma guestBytes_of_nextPage (hp : mmu.guestPtr .read (nextPage a) = some p)
    (h : pageSize ≤ a.toNat % pageSize + i) (hi : i < pageSize) :
    mmu.guestBytes m a i = m (p + (i - (pageSize - a.toNat % pageSize))) := by
  rw [Mmu.guestBytes, guestPtr_nextPage_add h hi, hp]
  rfl

/-! ### Loads -/

/-- What `read_prep` does: the bytes are those of the guest address, and the guest's state stays. -/
structure ReadsAs (mmu : Mmu) (n : ℕ) (s s' : JitState) (bytes : ℕ → UInt8) : Prop where
  bytes : ∀ i < n, bytes i = mmu.guestBytes s.mem s.addr i
  cpu : s'.cpu = s.cpu
  mem : s'.mem = s.mem
  valueAddr : s'.valueAddr = s.valueAddr ∨ s'.valueAddr = s.addr

variable {s : JitState}

lemma readPrep_of_mapped (hn : 0 < n) (hpage : n ≤ pageSize) (h : mmu.Mapped .read s.addr n) :
    ∃ s' bytes, s.readPrep mmu n = some (s', bytes) ∧ ReadsAs mmu n s s' bytes := by
  rw [JitState.readPrep]
  split_ifs with hc
  · have hoff : s.addr.toNat % pageSize < pageSize := Nat.mod_lt _ (by decide)
    obtain ⟨h1, h2⟩ := (mapped_of_crosses hpage hc).mp h
    obtain ⟨ptr1, h1⟩ := Option.isSome_iff_exists.mp h1
    obtain ⟨ptr2, h2⟩ := Option.isSome_iff_exists.mp h2
    rw [JitState.Crosses] at hc
    rw [h1, h2]
    refine ⟨_, _, rfl, fun i hi => ?_, rfl, rfl, Or.inr rfl⟩
    by_cases hin : s.addr.toNat % pageSize + i < pageSize
    · rw [guestBytes_of_ptr h1 hin, copyBytes, if_neg (by omega), copyBytes, if_pos (by omega),
        Nat.sub_zero]
    · rw [guestBytes_of_nextPage h2 (by omega) (by omega), copyBytes, if_pos (by omega)]
  · rw [JitState.Crosses, Nat.not_lt] at hc
    obtain ⟨ptr, hptr⟩ := Option.isSome_iff_exists.mp
      ((mapped_of_not_crosses hn hpage (Nat.not_lt.mpr hc)).mp h)
    rw [hptr]
    refine ⟨_, _, rfl, fun i hi => ?_, rfl, rfl, Or.inl rfl⟩
    rw [guestBytes_of_ptr hptr (by omega)]

lemma readPrep_of_not_mapped (hn : 0 < n) (hpage : n ≤ pageSize)
    (h : ¬ mmu.Mapped .read s.addr n) : s.readPrep mmu n = none := by
  rw [JitState.readPrep]
  split_ifs with hc
  · rw [mapped_of_crosses hpage hc] at h
    cases h1 : mmu.guestPtr .read s.addr with
    | none => rfl
    | some ptr1 =>
      cases h2 : mmu.guestPtr .read (nextPage s.addr) with
      | none => rfl
      | some ptr2 => exact absurd ⟨by rw [h1]; rfl, by rw [h2]; rfl⟩ h
  · rw [mapped_of_not_crosses hn hpage hc, Bool.not_eq_true, Option.isSome_eq_false_iff,
      Option.isNone_iff_eq_none] at h
    rw [h]
    rfl

/-! ### Stores -/

lemma copyBytes_succ (m : HostMem) (dst : ℕ) (src : ℕ → UInt8) (n : ℕ) :
    update (copyBytes m dst src n) (dst + n) (src n) = copyBytes m dst src (n + 1) := by
  funext i
  by_cases hi : i = dst + n
  · rw [hi, update_self, copyBytes, if_pos (by omega), Nat.add_sub_cancel_left]
  · rw [update_of_ne hi, copyBytes, copyBytes]
    exact if_congr (by omega) rfl rfl

lemma guestWrite_of_ptr {bytes : ℕ → UInt8}
    (h : ∀ i < n, mmu.guestPtr .write (a + .ofNat 64 i) = some (p + i)) :
    mmu.guestWrite m a bytes n = some (copyBytes m p bytes n) := by
  induction n with
  | zero =>
    have hcopy : copyBytes m p bytes 0 = m := by
      funext i
      exact if_neg (by omega)
    rw [hcopy]
    rfl
  | succ n ih =>
    rw [Mmu.guestWrite, ih fun i hi => h i (Nat.lt_succ_of_lt hi), h n n.lt_succ_self,
      ← copyBytes_succ]
    rfl

lemma guestWrite_add {bytes : ℕ → UInt8} {k : ℕ} {m' : HostMem}
    (hk : mmu.guestWrite m a bytes k = some m')
    (h : ∀ i < n, mmu.guestPtr .write (a + .ofNat 64 (k + i)) = some (p + i)) :
    mmu.guestWrite m a bytes (k + n) = some (copyBytes m' p (fun i => bytes (k + i)) n) := by
  induction n with
  | zero =>
    have hcopy : copyBytes m' p (fun i => bytes (k + i)) 0 = m' := by
      funext i
      exact if_neg (by omega)
    rw [hcopy]
    exact hk
  | succ n ih =>
    rw [← Nat.add_assoc, Mmu.guestWrite, ih fun i hi => h i (Nat.lt_succ_of_lt hi),
      h n n.lt_succ_self, ← copyBytes_succ]
    rfl

/-- The stores stay within `n` bytes and fill them. -/
structure Fills (stores : List HostStore) (n : ℕ) : Prop where
  inside : ∀ st ∈ stores, st.off + st.bytes ≤ n
  covers : ∀ i < n, ∃ st ∈ stores, st.off ≤ i ∧ i < st.off + st.bytes

def storedBytes (stores : List HostStore) : ℕ → UInt8 := storeAll (fun _ => 0) 0 stores

lemma storeAll_outside {stores : List HostStore} (h : ∀ st ∈ stores, st.off + st.bytes ≤ n)
    (hi : ¬ (p ≤ i ∧ i < p + n)) : storeAll m p stores i = m i := by
  induction stores generalizing m with
  | nil => rfl
  | cons st stores ih =>
    have hst := h st List.mem_cons_self
    exact (ih fun st' hst' => h st' (List.mem_cons_of_mem _ hst')).trans
      (storeLE_of_notMem (by omega))

lemma storeAll_inside {stores : List HostStore} {b : ℕ → UInt8} {q : ℕ}
    (h : m (p + i) = b (q + i) ∨ ∃ st ∈ stores, st.off ≤ i ∧ i < st.off + st.bytes) :
    storeAll m p stores (p + i) = storeAll b q stores (q + i) := by
  induction stores generalizing m b with
  | nil =>
    rcases h with h | ⟨st, hst, _⟩
    · exact h
    · cases hst
  | cons st stores ih =>
    apply ih
    show storeLE m (p + st.off) st.bytes st.value (p + i) =
      storeLE b (q + st.off) st.bytes st.value (q + i) ∨ _
    by_cases hst : st.off ≤ i ∧ i < st.off + st.bytes
    · left
      rw [storeLE, if_pos (by omega), storeLE, if_pos (by omega), Nat.add_sub_add_left,
        Nat.add_sub_add_left]
    · rw [storeLE_of_notMem (by omega), storeLE_of_notMem (by omega)]
      rcases h with h | ⟨st', hmem, hin⟩
      · exact Or.inl h
      · rcases List.mem_cons.mp hmem with rfl | hmem
        · exact absurd hin hst
        · exact Or.inr ⟨st', hmem, hin⟩

lemma storeAll_eq_stored {stores : List HostStore} {b : ℕ → UInt8} (h : Fills stores n)
    (hi : i < n) : storeAll b 0 stores i = storedBytes stores i := by
  have heq := storeAll_inside (m := b) (p := 0) (b := fun _ => 0) (q := 0)
    (Or.inr (h.covers i hi))
  rwa [Nat.zero_add] at heq

lemma storeAll_eq_copyBytes {stores : List HostStore} (h : Fills stores n) :
    storeAll m p stores = copyBytes m p (storedBytes stores) n := by
  funext j
  by_cases hj : p ≤ j ∧ j < p + n
  · obtain ⟨i, rfl⟩ := Nat.exists_eq_add_of_le hj.1
    have heq := storeAll_inside (m := m) (p := p) (b := fun _ => 0) (q := 0)
      (Or.inr (h.covers i (by omega)))
    rw [copyBytes, if_pos hj, Nat.add_sub_cancel_left, heq, Nat.zero_add]
    rfl
  · rw [copyBytes, if_neg hj, storeAll_outside h.inside hj]

lemma copyBytes_congr {src src' : ℕ → UInt8} (h : ∀ i < n, src i = src' i) :
    copyBytes m p src n = copyBytes m p src' n := by
  funext j
  by_cases hj : p ≤ j ∧ j < p + n
  · rw [copyBytes, if_pos hj, copyBytes, if_pos hj, h _ (by omega)]
  · rw [copyBytes, if_neg hj, copyBytes, if_neg hj]

/-- What `write_prep` and `write_done` do around stores that fill the access. -/
structure WritesAs (mmu : Mmu) (n : ℕ) (bytes : ℕ → UInt8) (s s' : JitState) : Prop where
  mem : mmu.guestWrite s.mem s.addr bytes n = some s'.mem
  cpu : s'.cpu = s.cpu
  valueAddr : s'.valueAddr = s.valueAddr ∨ s'.valueAddr = s.addr

lemma writeAccess_of_mapped {stores : List HostStore} (hn : 0 < n) (hpage : n ≤ pageSize)
    (hfill : Fills stores n) (h : mmu.Mapped .write s.addr n) :
    ∃ s', s.writeAccess mmu n stores = some s' ∧ WritesAs mmu n (storedBytes stores) s s' := by
  rw [JitState.writeAccess]
  split_ifs with hc
  · have hoff : s.addr.toNat % pageSize < pageSize := Nat.mod_lt _ (by decide)
    obtain ⟨h1, h2⟩ := (mapped_of_crosses hpage hc).mp h
    obtain ⟨ptr1, h1⟩ := Option.isSome_iff_exists.mp h1
    obtain ⟨ptr2, h2⟩ := Option.isSome_iff_exists.mp h2
    rw [JitState.Crosses] at hc
    rw [h1, h2]
    refine ⟨_, rfl, ?_, rfl, Or.inr rfl⟩
    set part1 := pageSize - s.addr.toNat % pageSize with hpart
    have hvalue : ∀ i < n, storedBytes stores i = storeAll s.value 0 stores i :=
      fun i hi => (storeAll_eq_stored hfill hi).symm
    have hfirst : mmu.guestWrite s.mem s.addr (storedBytes stores) part1 =
        some (copyBytes s.mem ptr1 (storeAll s.value 0 stores) part1) := by
      rw [← copyBytes_congr fun i hi => hvalue i (by omega)]
      refine guestWrite_of_ptr fun i hi => ?_
      rw [guestPtr_add (by omega), h1]
      rfl
    have hrest : mmu.guestWrite s.mem s.addr (storedBytes stores) (part1 + (n - part1)) =
        some (copyBytes (copyBytes s.mem ptr1 (storeAll s.value 0 stores) part1) ptr2
          (fun i => storeAll s.value 0 stores (part1 + i)) (n - part1)) := by
      rw [← copyBytes_congr (n := n - part1) fun i hi => hvalue (part1 + i) (by omega)]
      refine guestWrite_add hfirst fun i hi => ?_
      rw [guestPtr_nextPage_add (by omega) (by omega), h2, ← hpart, Nat.add_sub_cancel_left]
      rfl
    rwa [Nat.add_sub_cancel' (by omega)] at hrest
  · obtain ⟨ptr, hptr⟩ := Option.isSome_iff_exists.mp ((mapped_of_not_crosses hn hpage hc).mp h)
    rw [JitState.Crosses, Nat.not_lt] at hc
    rw [hptr]
    refine ⟨_, rfl, ?_, rfl, Or.inl rfl⟩
    rw [guestWrite_of_ptr (p := ptr) fun i hi => ?_, storeAll_eq_copyBytes hfill]
    rw [guestPtr_add (by omega), hptr]
    rfl

lemma writeAccess_of_not_mapped {stores : List HostStore} (hn : 0 < n) (hpage : n ≤ pageSize)
    (h : ¬ mmu.Mapped .write s.addr n) : s.writeAccess mmu n stores = none := by
  rw [JitState.writeAccess]
  split_ifs with hc
  · rw [mapped_of_crosses hpage hc] at h
    cases h1 : mmu.guestPtr .write s.addr with
    | none => rfl
    | some ptr1 =>
      cases h2 : mmu.guestPtr .write (nextPage s.addr) with
      | none => rfl
      | some ptr2 => exact absurd ⟨by rw [h1]; rfl, by rw [h2]; rfl⟩ h
  · rw [mapped_of_not_crosses hn hpage hc, Bool.not_eq_true, Option.isSome_eq_false_iff,
      Option.isNone_iff_eq_none] at h
    rw [h]
    rfl

end ShellBox
