import ShellBox.Kernel.Memory.Mapping

/-!
# Translating an address

`mem_ptr` turns a guest address into a host pointer and makes the page-table changes the
access needs: it grows a stack, gives a reserved page its entry, or copies a page that is
shared copy-on-write. Its phases are separate functions, since the lock is dropped between
them.
-/

namespace ShellBox

open World

def stackTopPage : ℕ := 0xffffe

/-- `MEM_READ`, `MEM_WRITE` and `MEM_WRITE_PTRACE`. -/
inductive AccessType where
  | read | write | writePtrace
  deriving DecidableEq, Repr

/-- `mem_ptr_nofault`. Only `MEM_WRITE` looks at the protection. -/
def memPtrNofault (w : World) (s addr : ℕ) (type : AccessType) : Option HostPtr :=
  match (w.mem s).pt.memPt (page addr) with
  | none => none
  | some e =>
    if type = .write && !e.flags.writable then none
    else some { data := e.data, offset := e.offset + pgoffset addr }

/-- The check against `RLIMIT_STACK`, in 64-bit arithmetic. -/
def withinStackLimit (h : Host) (page : ℕ) : Bool :=
  match h.stackLimit with
  | none => true
  | some limit =>
    let stackPages := (stackTopPage + 2 ^ 64 - page) % 2 ^ 64
    let slack := 131072
    stackPages * pageSize % 2 ^ 64 ≤ (limit + slack) % 2 ^ 64

/-- Stack growth from the faulting page up to the next mapped page `p`, at most 256 pages. -/
def growStack (h : Host) (s page p : ℕ) (w : World) : World :=
  let maxGrow := 256
  let growEnd := if maxGrow < p - page then page + maxGrow else p
  let growCount := growEnd - page
  (ptMapNothing h s page growCount (pWrite ||| pGrowsdown) (w.addAnon growCount)).1

/-- The path `check_reservation`: a reserved page gets its entry. -/
def mapReserved (h : Host) (s page : ℕ) (w : World) : World × Bool :=
  match memFindReservation (w.mem s).reservations page with
  | none => (w, false)
  | some res => ((ptMapNothing h s page 1 (res.flags &&& ~~~pGrowsdown) (w.addAnon 1)).1, true)

/-- The part of `mem_ptr` for a page without entry; `false` stands for `return NULL`. -/
def faultIn (h : Host) (s page : ℕ) (w : World) : World × Bool :=
  let pt := (w.mem s).pt
  match pt.memPt page with
  | some _ => (w, true)
  | none =>
    match pt.nextMapped memPages (pt.memNextPage page) with
    | none => mapReserved h s page w
    | some p =>
      if ((pt.memPt p).map (·.flags.growsdown)).getD false then
        if withinStackLimit h page then (growStack h s page p w, true) else (w, false)
      else mapReserved h s page w

/-- The copy of a page that awaits copy-on-write, once the lock is held for writing. The
source does not look at the result of the host mapping for the copy; when that fails the
copying traps, and nothing has changed. -/
def copyForWrite (h : Host) (s page : ℕ) (w : World) : World :=
  match (w.mem s).pt.memPt page with
  | none => w
  | some e =>
    if e.flags.cow && h.mmapOk page then
      let copy := fun i => ((w.load { data := e.data, offset := e.offset + i }).getD 0)
      let w := if e.flags.anonymous then w.addAnon 1 else w
      (ptMap h s page 1 (some copy) 0 (e.flags &&& ~~~pCow) w).1.memChanged s
    else w

/-- `P_CODE` is cleared, with `mem_changed`, before a store to a page of compiled code. -/
def clearCode (s page : ℕ) (f : Flags) (w : World) : World :=
  if f.code then (w.setFlags s page (f &&& ~~~pCode)).memChanged s else w.setFlags s page f

/-- The part of `mem_ptr` that makes a mapped page ready for a store. -/
def prepareWrite (h : Host) (s page : ℕ) (ptrace : Bool) (w : World) : World × Bool :=
  match (w.mem s).pt.memPt page with
  | none => (w, true)
  | some e =>
    if !ptrace && !e.flags.write then (w, false)
    else
      let f := if ptrace then e.flags ||| (pWrite ||| pCow) else e.flags
      (copyForWrite h s page (clearCode s page f w), true)

def memPtr (h : Host) (s addr : ℕ) (type : AccessType) (w : World) : World × Option HostPtr :=
  match faultIn h s (page addr) w with
  | (w, false) => (w, none)
  | (w, true) =>
    if type = .read then (w, memPtrNofault w s addr type)
    else
      match prepareWrite h s (page addr) (type = .writePtrace) w with
      | (w, false) => (w, none)
      | (w, true) => (w, memPtrNofault w s addr type)

def writeByte (h : Host) (s addr : ℕ) (byte : UInt8) (w : World) : World :=
  match memPtr h s addr .write w with
  | (w, none) => w
  | (w, some p) => w.store p byte

def readByte (h : Host) (s addr : ℕ) (w : World) : World × Option UInt8 :=
  match memPtr h s addr .read w with
  | (w, none) => (w, none)
  | (w, some p) => (w, w.load p)

/-! ### Marking compiled code -/

def mmuMarkCodePage (s page : ℕ) (w : World) : World × ℤ :=
  match (w.mem s).pt.memPt page with
  | none => (w, -1)
  | some e =>
    if e.flags.code then (w, 0)
    else ((w.setFlags s page (e.flags ||| pCode)).memChanged s, 1)

def mmuCodePageIntact (s page : ℕ) (w : World) : Bool :=
  ((w.mem s).pt.memPt page).any (·.flags.code)

def memMmuTranslateWriteNofault (w : World) (s addr : ℕ) : Option HostPtr :=
  if ((w.mem s).pt.memPt (page addr)).any (·.flags.code) then none
  else memPtrNofault w s addr .write

end ShellBox
