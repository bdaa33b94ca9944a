import ShellBox.Kernel.Memory.Fault
import ShellBox.Logic.LittleEndian

/-!
# Atomic accesses to guest memory

The helpers that the gadgets of exclusive and atomic instructions call. Each gets a host pointer
to the guest address and works on the host memory there with one atomic operation of the host, so
guest threads that share memory meet in the host memory.

The translation of guest pages is a parameter. It does not change while the instructions below
run; what happens when it does is the subject of the modules on the TLB.
-/

namespace ShellBox

abbrev HostMem := ℕ → UInt8

/-- An address space, as `mmu_translate` shows it: the host address of a guest page, for a kind of
access that is allowed there. -/
structure Mmu where
  translate : ℕ → AccessType → Option ℕ

/-- The two-bit size field of an instruction: the logarithm of a number of bytes. -/
abbrev AccessSize := Fin 4

namespace AccessSize

def word : AccessSize := 2
def dword : AccessSize := 3

end AccessSize

namespace Mmu

variable {mmu : Mmu} {addr n i p : ℕ}

/-- `__tlb_read_ptr`. -/
def readPtr (mmu : Mmu) (addr : ℕ) : Option ℕ :=
  (mmu.translate (page addr) .read).map (· + pgoffset addr)

/-- `__tlb_write_ptr`. -/
def writePtr (mmu : Mmu) (addr : ℕ) : Option ℕ :=
  (mmu.translate (page addr) .write).map (· + pgoffset addr)

/-- `__tlb_read_cross_page`: fill the first `size` bytes of a buffer from two pages. -/
def readCrossPage (mmu : Mmu) (m : HostMem) (addr size : ℕ) (value : ℕ → UInt8) :
    Option (ℕ → UInt8) :=
  match mmu.readPtr addr, mmu.readPtr ((page addr + 1) * pageSize) with
  | some ptr1, some ptr2 =>
    let part1 := pageSize - pgoffset addr
    some fun i =>
      if i < part1 then m (ptr1 + i) else if i < size then m (ptr2 + (i - part1)) else value i
  | _, _ => none

lemma pgoffset_add (hn : n ∣ pageSize) (haddr : n ∣ addr) (hi : i < n) :
    page (addr + i) = page addr ∧ pgoffset (addr + i) = pgoffset addr + i := by
  have hpos : 0 < pageSize := by decide
  have hoff : n ∣ pgoffset addr := (Nat.dvd_mod_iff hn).2 haddr
  have hroom : pgoffset addr + n ≤ pageSize := by
    obtain ⟨k, hk⟩ := hn
    obtain ⟨j, hj⟩ := hoff
    have hlt : n * j < n * k := hj ▸ hk ▸ pgoffset_lt addr
    rw [hj, hk, ← Nat.mul_succ]
    exact Nat.mul_le_mul_left n (Nat.lt_of_mul_lt_mul_left hlt)
  have hsplit : addr + i = pageSize * page addr + (pgoffset addr + i) := by
    rw [← Nat.add_assoc]
    exact congrArg (· + i) (Nat.div_add_mod addr pageSize).symm
  have hlt : pgoffset addr + i < pageSize := Nat.lt_of_lt_of_le (Nat.add_lt_add_left hi _) hroom
  constructor
  · rw [page, hsplit, Nat.mul_add_div hpos, Nat.div_eq_of_lt hlt, Nat.add_zero]
  · rw [pgoffset, hsplit, Nat.mul_add_mod, Nat.mod_eq_of_lt hlt]

lemma writePtr_add (hn : n ∣ pageSize) (haddr : n ∣ addr) (hp : mmu.writePtr addr = some p)
    (hi : i < n) : mmu.writePtr (addr + i) = some (p + i) := by
  obtain ⟨hpage, hoff⟩ := pgoffset_add hn haddr hi
  obtain ⟨base, hbase, rfl⟩ := Option.map_eq_some_iff.1 hp
  rw [writePtr, hpage, hoff, hbase, Option.map_some, Nat.add_assoc]

end Mmu

/-! ### Store exclusive -/

inductive CasStatus where
  | success | failure | segfault
  deriving DecidableEq, Repr

def CasStatus.ofBool (stored : Bool) : CasStatus := if stored then .success else .failure

def cStxrCas (mmu : Mmu) (m : HostMem) (addr : ℕ) (expected new : BitVec 64) (size : AccessSize) :
    HostMem × CasStatus :=
  match mmu.writePtr addr with
  | none     => (m, .segfault)
  | some ptr =>
    let r := compareExchange m ptr (2 ^ size.val) expected.toNat new.toNat
    (r.1, .ofBool r.2)

/-- `c_stxp_cas`. Only the pair of doublewords has its address checked. -/
def cStxpCas (mmu : Mmu) (m : HostMem) (addr : ℕ) (exp1 exp2 new1 new2 : BitVec 64)
    (size : AccessSize) : HostMem × CasStatus :=
  if size = .word then
    match mmu.writePtr addr with
    | none     => (m, .segfault)
    | some ptr =>
      let r := compareExchange m ptr 8 (pairLE 4 exp1.toNat exp2.toNat)
        (pairLE 4 new1.toNat new2.toNat)
      (r.1, .ofBool r.2)
  else if size ≠ .dword then (m, .segfault)
  else if addr % 16 ≠ 0 then (m, .segfault)
  else if pageSize - 16 < pgoffset addr then (m, .segfault)
  else match mmu.writePtr addr with
    | none     => (m, .segfault)
    | some ptr =>
      let r := compareExchange m ptr 16 (pairLE 8 exp1.toNat exp2.toNat)
        (pairLE 8 new1.toNat new2.toNat)
      (r.1, .ofBool r.2)

/-! ### Compare-and-swap and read-modify-write -/

/-- `c_atomic_cas`. The old value is returned, also when nothing was stored. -/
def cAtomicCas (mmu : Mmu) (m : HostMem) (addr : ℕ) (expected desired : BitVec 64)
    (size : AccessSize) : HostMem × Option (BitVec 64) :=
  match mmu.writePtr addr with
  | none     => (m, none)
  | some ptr =>
    ((compareExchange m ptr (2 ^ size.val) expected.toNat desired.toNat).1,
      some (.ofNat 64 (loadLE m ptr (2 ^ size.val))))

def cAtomicCas128 (mmu : Mmu) (m : HostMem) (addr : ℕ) (expLo expHi desLo desHi : BitVec 64) :
    HostMem × Option (BitVec 64 × BitVec 64) :=
  if addr % 16 ≠ 0 then (m, none)
  else if pageSize - 16 < pgoffset addr then (m, none)
  else match mmu.writePtr addr with
    | none     => (m, none)
    | some ptr =>
      ((compareExchange m ptr 16 (pairLE 8 expLo.toNat expHi.toNat)
          (pairLE 8 desLo.toNat desHi.toNat)).1,
        some (.ofNat 64 (loadLE m ptr 8), .ofNat 64 (loadLE m (ptr + 8) 8)))

/-- The operations of `c_atomic_rmw`, by their number in the instruction: add, clear, exclusive
or, set, signed and unsigned maximum and minimum, swap. -/
def rmwValue (size : AccessSize) (op : ℕ) (old value : ℕ) : ℕ :=
  let o := BitVec.ofNat (8 * 2 ^ size.val) old
  let v := BitVec.ofNat (8 * 2 ^ size.val) value
  match op with
  | 0 => (o + v).toNat
  | 1 => (o &&& ~~~v).toNat
  | 2 => (o ^^^ v).toNat
  | 3 => (o ||| v).toNat
  | 4 => if v.toInt < o.toInt then o.toNat else v.toNat
  | 5 => if o.toInt < v.toInt then o.toNat else v.toNat
  | 6 => if v < o then o.toNat else v.toNat
  | 7 => if o < v then o.toNat else v.toNat
  | _ => v.toNat

/-- Maximum and minimum go through `ATOMIC_RMW_CAS_LOOP`; the others are one operation of the
host. -/
def rmwLoops (op : ℕ) : Bool := 4 ≤ op && op ≤ 7

end ShellBox
