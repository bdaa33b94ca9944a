import ShellBox.Kernel.Memory.Holes
import ShellBox.Kernel.Memory.Lifetime

/-!
# The memory system calls

`mmap`, `munmap`, `mprotect`, `mremap` and `brk` of `kernel/mmap.c`, the copy of an address
space at a fork, and the demand mapping that answers a fault. The anonymous page count is
adjusted here by hand, next to the page-table operations.
-/

namespace ShellBox

open World

def anonMmapLimitPages : ℕ := 1048576

/-- The memory, and the break of each address space (`start_brk` and `brk` of `struct mm`). -/
structure Guest where
  world : World
  startBrk : ℕ → ℕ
  brk : ℕ → ℕ

/-- The bits of the `flags` argument of `mmap` that are read. -/
structure MmapFlags where
  shared : Bool := false
  isPrivate : Bool := false
  fixed : Bool := false
  anonymous : Bool := false
  noreserve : Bool := false
  deriving DecidableEq, Repr

/-- What the descriptor of a file mapping leads to: no file, a file that cannot be mapped, or
host memory with the correction of its offset (`none` when the host refuses). -/
inductive MmapFile where
  | badFd
  | noMmap
  | mapped (memory : Option (ℕ → UInt8)) (correction : ℕ)

/-- The protection of a word, unless `prot & ~P_RWX`. -/
def Prot.ofWord (word : ℕ) : Option Prot :=
  if word < 8 then
    some { read := word.testBit 0, write := word.testBit 1, exec := word.testBit 2 }
  else none

/-! ### Placing a mapping -/

/-- `pt_find_hole`, or `pt_find_hole_for_reservation` when high addresses are preferred. -/
def placeInHole (m : Mem) (pages : ℕ) (hpages : 0 < pages) (preferHigh : Bool) :
    Except Errno PageRange × Mem :=
  match h : ptFindHoleImpl m pages preferHigh with
  | (some start, m') => (.ok ⟨start, pages, ptFindHoleImpl_fits hpages h⟩, m')
  | (none, m') => (.error .enomem, m')

/-- The first half of `do_mmap`: the pages of the mapping. -/
def mmapPlace (w : World) (s addr pages : ℕ) (hpages : 0 < pages) (fixed preferHigh : Bool) :
    Except Errno PageRange × Mem :=
  let m := w.mem s
  let inHole := placeInHole m pages hpages preferHigh
  if pgoffset addr ≠ 0 then (.error .einval, m)
  else if addr = 0 then inHole
  else if hlow : page addr < 0x100000 then
    if h : stackTopPage < page addr + pages then
      if fixed then (.error .enomem, m) else inHole
    else if !fixed && !ptIsHole w s (page addr) pages then inHole
    else (.ok ⟨page addr, pages, by have : stackTopPage ≤ memPages := by decide
                                    omega⟩, m)
  else
    if h : userAddrMaxPage < page addr + pages then
      if fixed then (.error .enomem, m) else inHole
    else if !fixed && !ptIsHole w s (page addr) pages then inHole
    else (.ok ⟨page addr, pages, by have : userAddrMaxPage ≤ memPages := by decide
                                    omega⟩, m)

/-- A large `MAP_NORESERVE` range is moved down to a multiple of its size, at most `0x40000`
pages, if that is a hole. -/
def alignRange (w : World) (s : ℕ) (r : PageRange) : PageRange :=
  let alignPages := if 0x40000 < r.pages then 0x40000 else r.pages
  let aligned := r.start / alignPages * alignPages
  if mmapHoleEnd ≤ aligned && ptIsHole w s aligned r.pages then
    { start := aligned
      pages := r.pages
      fits := by
        have := Nat.div_mul_le_self r.start alignPages
        have := r.fits
        simp only [aligned]
        omega }
  else r

/-! ### System calls -/

/-- The flags of a mapping: `prot`, with `P_SHARED` for `MAP_SHARED`. -/
def mmapProt (prot : Prot) (shared : Bool) : { f : Flags // f.IsMapFlags } :=
  ⟨{ prot.flags with shared }, fun _ => rfl⟩

/-- The eager anonymous case of `do_mmap`. `PROT_NONE` mappings are not counted. -/
def mmapEager (h : Host) (s : ℕ) (r : PageRange) (prot : Prot) (shared : Bool) (w : World) :
    World × Except Errno ℕ :=
  let isProtNone := prot.flags.isProtNone
  if !isProtNone && decide ((anonMmapLimitPages : ℤ) < w.anonPageCount + r.pages) then
    (w, .error .enomem)
  else
    let w := if isProtNone then w else w.addAnon r.pages
    match ptMapNothing h s r.start r.pages (mmapProt prot shared).1 w with
    | (w, .error e) => (if isProtNone then w else w.addAnon (-r.pages), .error e)
    | (w, .ok _) => (w, .ok (r.start * pageSize))

/-- The result of a mapping function as the address `do_mmap` returns. -/
def mmapResult (start : ℕ) : World × Except Errno Unit → World × Except Errno ℕ
  | (w, .ok _) => (w, .ok (start * pageSize))
  | (w, .error e) => (w, .error e)

/-- The second half of `do_mmap`. -/
def mmapAt (h : Host) (s : ℕ) (r : PageRange) (prot : Prot) (flags : MmapFlags)
    (file : MmapFile) (w : World) : World × Except Errno ℕ :=
  let pt := mmapProt prot flags.shared
  if flags.anonymous then
    if flags.noreserve && decide (0x10000 < r.pages) then
      let r := alignRange w s r
      mmapResult r.start (ptMapLazy h s r pt w)
    else if prot.flags.isProtNone && decide (0x8000 ≤ r.pages) then
      mmapResult r.start (ptMapLazy h s r pt w)
    else mmapEager h s r prot flags.shared w
  else
    match file with
    | .badFd => (w, .error .ebadf)
    | .noMmap => (w, .error .enodev)
    | .mapped memory correction =>
      mmapResult r.start (ptMap h s r.start r.pages memory correction pt.1 w)

/-- The shape of a V8 heap cage: a large private anonymous `PROT_NONE` mapping. -/
def isV8CageReservation (pages : ℕ) (prot : Prot) (flags : MmapFlags) : Bool :=
  prot.flags.isProtNone && flags.isPrivate && flags.anonymous && !flags.shared &&
    decide (0x8000 ≤ pages)

/-- `sys_mmap64`. -/
def sysMmap (h : Host) (s addr len prot : ℕ) (flags : MmapFlags) (file : MmapFile) (w : World) :
    World × Except Errno ℕ :=
  if len = 0 then (w, .error .einval)
  else
    match Prot.ofWord prot with
    | none => (w, .error .einval)
    | some prot =>
      if flags.isPrivate && flags.shared then (w, .error .einval)
      else if hpages : 0 < pageRoundUp len then
        let cage := isV8CageReservation (pageRoundUp len) prot flags
        match mmapPlace w s addr (pageRoundUp len) hpages flags.fixed cage with
        | (.error e, m) => (w.setMem s m, .error e)
        | (.ok r, m) => mmapAt h s r prot flags file (w.setMem s m)
      else (w, .error .einval)

def sysMunmap (h : Host) (s addr len : ℕ) (w : World) : World × Except Errno ℕ :=
  if pgoffset addr ≠ 0 ∨ len = 0 then (w, .error .einval)
  else (ptUnmapAlways h s (page addr) (pageRoundUp len) w, .ok 0)

def sysMprotect (h : Host) (s addr len prot : ℕ) (w : World) : World × Except Errno Unit :=
  if pgoffset addr ≠ 0 then (w, .error .einval)
  else
    match Prot.ofWord prot with
    | none => (w, .error .einval)
    | some prot => ptSetFlags h s (page addr) (pageRoundUp len) prot.flags w

/-- `sys_mremap`, with `MREMAP_MAYMOVE` or no flag. `none` stands for the null pointer that the
loop over the old pages dereferences when one of them is unmapped. -/
def sysMremap (h : Host) (s addr : ℕ) (oldLen newLen : BitVec 32) (w : World) :
    World × Option (Except Errno ℕ) :=
  if pgoffset addr ≠ 0 then (w, some (.error .einval))
  else
    let oldPages := page oldLen.toNat
    let newPages := page newLen.toNat
    if newPages ≤ oldPages then
      match ptUnmap h s (page addr + newPages) (oldPages - newPages) w with
      | (w, true) => (w, some (.ok addr))
      | (w, false) => (w, some (.error .efault))
    else
      match (w.mem s).pt.memPt (page addr) with
      | none => (w, some (.error .efault))
      | some e =>
        if !allPages (isMapped w s) (page addr) oldPages then (w, none)
        else if !e.flags.anonymous then (w, some (.error .efault))
        else
          let extraStart := page addr + oldPages
          let extraPages := newPages - oldPages
          if !ptIsHole w s extraStart extraPages then (w, some (.error .enomem))
          else
            match ptMapNothing h s extraStart extraPages e.flags w with
            | (w, .ok _) => (w, some (.ok addr))
            | (w, .error err) => (w, some (.error err))

/-- The growing branch of `sys_brk`: `size` more pages from `start` on. -/
def growBrk (h : Host) (s start size newBrk : ℕ) (g : Guest) : Guest :=
  if !ptIsHole g.world s start size then g
  else if (anonMmapLimitPages : ℤ) < g.world.anonPageCount + size then g
  else
    match ptMapNothing h s start size pWrite (g.world.addAnon size) with
    | (w, .error _) => { g with world := w.addAnon (-size) }
    | (w, .ok _) => { g with world := w, brk := Function.update g.brk s newBrk }

/-- The shrinking branch of `sys_brk`. -/
def shrinkBrk (h : Host) (s firstUnmap lastUnmap newBrk : ℕ) (g : Guest) : Guest :=
  { g with
    world := if firstUnmap < lastUnmap then
        ptUnmapAlways h s firstUnmap (lastUnmap - firstUnmap) g.world
      else g.world
    brk := Function.update g.brk s newBrk }

/-- `sys_brk`; the result is the break of the address space afterwards. -/
def sysBrk (h : Host) (s newBrk : ℕ) (g : Guest) : Guest :=
  let oldBrk := g.brk s
  if newBrk < g.startBrk s then g
  else if oldBrk < newBrk then
    growBrk h s (pageRoundUp oldBrk) ((pageRoundUp newBrk + 2 ^ 64 - pageRoundUp oldBrk) % 2 ^ 64)
      newBrk g
  else if newBrk < oldBrk then
    shrinkBrk h s (pageRoundUp newBrk) (pageRoundUp oldBrk) newBrk g
  else { g with brk := Function.update g.brk s newBrk }

/-- `mm_copy`: `dst` is the new address space, one that is not in use. -/
def mmCopy (h : Host) (src dst : ℕ) (g : Guest) : Guest :=
  if src ≠ dst ∧ (g.world.mem dst).pt.tables = [] then
    { world := ptCopyOnWrite h src dst 0 memPages (g.world.setMem dst .init)
      startBrk := Function.update g.startBrk dst (g.startBrk src)
      brk := Function.update g.brk dst (g.brk src) }
  else g

/-! ### Demand mapping after a fault -/

def anyMapped (w : World) (s start pages : ℕ) : Bool :=
  !allPages (fun page => !isMapped w s page) start pages

/-- The decision of `handle_interrupt` to map the page of a fault that `mem_ptr` could not
resolve: the page is reserved or in a range that is taken for a V8 heap, or has a mapped
neighbour. -/
def demandMaps (w : World) (s addr : ℕ) (isWrite : Bool) (pc : ℕ) : Bool :=
  let reserved := (memFindReservation (w.mem s).reservations (page addr)).isSome
  let lowCage := decide (0xb0000000 ≤ addr ∧ addr < 0xf0000000)
  let inV8Cage := reserved || lowCage || decide (0x100000000 ≤ addr)
  let inExplicitCage := reserved || lowCage
  let radius := if 0x100000000 ≤ addr then 256 else 16
  let lo := page addr - radius
  let above := (min (page addr + radius + 1) memPages) - (page addr + 1)
  let writeBarrier := decide ((0xeee00000 ≤ pc ∧ pc < 0xeee20000) ∨
    (0xee3ef000 ≤ pc ∧ pc < 0xee3f1000))
  (!isWrite || inV8Cage) &&
    ((isWrite && inExplicitCage) || anyMapped w s (page addr + 1) above ||
      anyMapped w s lo (page addr - lo) ||
      (isWrite && decide (0x100000000 ≤ addr) && writeBarrier))

/-- The answer to `INT_GPF`: translate once more, else map the page. -/
def gpfMap (h : Host) (s addr : ℕ) (isWrite : Bool) (pc : ℕ) (w : World) : World :=
  match memPtr h s addr (if isWrite then .write else .read) w with
  | (w, some _) => w
  | (w, none) =>
    if demandMaps w s addr isWrite pc && !isMapped w s (page addr) then
      (ptMapNothing h s (page addr) 1 (if isWrite then pRead ||| pWrite else pRead) w).1
    else w

/-! ### Runs of system calls and faults -/

inductive Syscall where
  | mmap (s addr len prot : ℕ) (flags : MmapFlags) (file : MmapFile)
  | munmap (s addr len : ℕ)
  | mprotect (s addr len prot : ℕ)
  | mremap (s addr : ℕ) (oldLen newLen : BitVec 32)
  | brk (s newBrk : ℕ)
  | fork (src dst : ℕ)
  | access (s addr : ℕ) (type : AccessType)
  | gpf (s addr : ℕ) (isWrite : Bool) (pc : ℕ)
  | destroy (s : ℕ)

namespace Syscall

def step (g : Guest) : Host × Syscall → Guest
  | (h, mmap s addr len prot flags file) =>
    { g with world := (sysMmap h s addr len prot flags file g.world).1 }
  | (h, munmap s addr len) => { g with world := (sysMunmap h s addr len g.world).1 }
  | (h, mprotect s addr len prot) => { g with world := (sysMprotect h s addr len prot g.world).1 }
  | (h, mremap s addr oldLen newLen) =>
    { g with world := (sysMremap h s addr oldLen newLen g.world).1 }
  | (h, brk s newBrk) => sysBrk h s newBrk g
  | (h, fork src dst) => mmCopy h src dst g
  | (h, access s addr type) => { g with world := (memPtr h s addr type g.world).1 }
  | (h, gpf s addr isWrite pc) => { g with world := gpfMap h s addr isWrite pc g.world }
  | (h, destroy s) => { g with world := memDestroy h s g.world }

end Syscall

end ShellBox
