import ShellBox.Kernel.Memory.World
import ShellBox.Logic.Loop

/-!
# Mapping, unmapping and protecting pages

The functions of `kernel/memory.c` that change page tables, on the state of `World`. Each
takes the answers of the host (`Host`), the address space and its arguments in the order of
the source. Blocks compiled from a page are dropped together with its entry; they are no
part of this state.
-/

namespace ShellBox

open World

/-! ### Ranges of pages -/

/-- The `pages` pages from `start` on all satisfy `p`. -/
def allPages (p : ℕ → Bool) (start : ℕ) : ℕ → Bool
  | 0 => true
  | pages + 1 => p start && allPages p (start + 1) pages

lemma allPages_iff {p : ℕ → Bool} {start pages : ℕ} :
    allPages p start pages = true ↔ ∀ q, start ≤ q → q < start + pages → p q = true := by
  induction pages generalizing start with
  | zero =>
    simp only [allPages, true_iff]
    intro q hle hlt
    omega
  | succ pages ih =>
    simp only [allPages, Bool.and_eq_true, ih]
    constructor
    · rintro ⟨hp, hall⟩ q hle hlt
      by_cases hq : q = start
      · exact hq ▸ hp
      · exact hall q (by omega) (by omega)
    · intro hall
      exact ⟨hall start le_rfl (by omega), fun q hle hlt => hall q (by omega) (by omega)⟩

def isMapped (w : World) (s page : ℕ) : Bool := ((w.mem s).pt.memPt page).isSome

def ptIsHole (w : World) (s start pages : ℕ) : Bool :=
  allPages (fun page => !isMapped w s page) start pages &&
    !reservationsOverlap (w.mem s).reservations start pages

structure PageRange where
  start : ℕ
  pages : ℕ
  fits : start + pages ≤ memPages

def ptMapLazy (h : Host) (s : ℕ) (r : PageRange) (flags : { f : Flags // f.IsMapFlags })
    (w : World) : World × Except Errno Unit :=
  let res : MemReservation :=
    { start := r.start, pages := r.pages, flags := flags.1 ||| pAnonymous, fits := r.fits
      mapFlags := fun hs => by
        simp only [pAnonymous, Flags.shared_or, Flags.cow_or, Bool.or_false] at hs ⊢
        exact flags.2 hs }
  if h.reservationOk res then
    let m := w.mem s
    ((w.setMem s { m with reservations := res :: m.reservations }).memChanged s, .ok ())
  else (w, .error .enomem)

/-! ### Unmapping -/

/-- The body of the loop of `pt_unmap_always`. -/
def unmapPage (s page : ℕ) (w : World) : World :=
  match (w.mem s).pt.memPt page with
  | none => w
  | some e =>
    let w := if e.flags.anonymous then w.addAnon (-1) else w
    (w.memPtDel s page).unrefData e.data

/-- `pt_unmap_always`. The hint is compared and moved in 64-bit arithmetic. -/
def ptUnmapAlways (h : Host) (s start pages : ℕ) (w : World) : World :=
  let m := w.mem s
  let last := (start + pages + (2 ^ 64 - 1)) % 2 ^ 64
  let w := w.setMem s { m with
    mmapHint := if m.mmapHint < last then last else m.mmapHint
    reservations := memRemoveReservations h.reservationOk start pages m.reservations }
  let w := forLoop (fun w page => (w.mem s).pt.memNextPage page) (unmapPage s)
    (start + pages) pages start w
  w.memChanged s

/-- `pt_unmap`: nothing happens, and the result is `false`, unless all pages are mapped. -/
def ptUnmap (h : Host) (s start pages : ℕ) (w : World) : World × Bool :=
  if allPages (isMapped w s) start pages then (ptUnmapAlways h s start pages w, true)
  else (w, false)

/-! ### Mapping -/

/-- The body of the loop of `pt_map`. -/
def mapPage (h : Host) (s : ℕ) (d : DataId) (start offset : ℕ) (flags : Flags) (page : ℕ)
    (w : World) : World :=
  let w := if isMapped w s page then (ptUnmap h s page 1 w).1 else w
  (w.refData d).memPtNew s page
    { data := d, offset := (page - start) * pageSize + offset, flags }

/-- `pt_map` of host memory with these contents; `none` is `MAP_FAILED`. -/
def ptMap (h : Host) (s start pages : ℕ) (memory : Option (ℕ → UInt8)) (offset : ℕ)
    (flags : Flags) (w : World) : World × Except Errno Unit :=
  match memory with
  | none => (w, .error h.errno)
  | some bytes =>
    if h.dataOk start then
      (forLoop (fun _ page => page + 1) (mapPage h s w.nextData start offset flags)
        (start + pages) pages start (w.allocData bytes), .ok ())
    else (w, .error .enomem)

/-- `pt_map_nothing`. The host has no room for more than `memPages` pages either. -/
def ptMapNothing (h : Host) (s start pages : ℕ) (flags : Flags) (w : World) :
    World × Except Errno Unit :=
  if pages = 0 then (w, .ok ())
  else if h.mmapOk start ∧ pages ≤ memPages then
    ptMap h s start pages (some fun _ => 0) 0 (flags ||| pAnonymous) w
  else (w, .error .enomem)

/-! ### Protecting -/

/-- The length of the run of unmapped pages at `page` and below `stop`. -/
def unmappedRun (w : World) (s stop : ℕ) : ℕ → ℕ → ℕ
  | 0, _ => 0
  | fuel + 1, page =>
    if page < stop ∧ isMapped w s page = false then unmappedRun w s stop fuel (page + 1) + 1
    else 0

/-- The second loop of `pt_set_flags`. A run of reserved pages gets its entries by one
`pt_map_nothing`, whose result is ignored. When the host refuses a protection, the function
returns at once and the change count stays as it is. -/
def setFlagsLoop (h : Host) (s stop : ℕ) (flags : Flags) :
    ℕ → ℕ → World → World × Except Errno Unit
  | 0, _, w => (w.memChanged s, .ok ())
  | fuel + 1, page, w =>
    if page < stop then
      match (w.mem s).pt.memPt page with
      | none =>
        if (flags &&& pRwx).isProtNone then setFlagsLoop h s stop flags fuel (page + 1) w
        else
          let runLen := unmappedRun w s stop (stop - page) page
          setFlagsLoop h s stop flags fuel (page + runLen)
            (ptMapNothing h s page runLen (flags ||| pAnonymous) w).1
      | some e =>
        let w := w.setFlags s page (flags ||| (e.flags &&& pMetaFlags))
        let increased := flags &&& ~~~e.flags
        if (increased.read || increased.write) && !h.protectOk page then (w, .error h.errno)
        else setFlagsLoop h s stop flags fuel (page + 1) w
    else (w.memChanged s, .ok ())

def ptSetFlags (h : Host) (s start pages : ℕ) (flags : Flags) (w : World) :
    World × Except Errno Unit :=
  if allPages (fun page => isMapped w s page ||
      (memFindReservation (w.mem s).reservations page).isSome) start pages then
    setFlagsLoop h s (start + pages) flags pages start w
  else (w, .error .enomem)

/-! ### Forking and destroying -/

/-- The flags of a source page once it has been copied: it awaits a copy unless it is shared. -/
def copyFlags (f : Flags) : Flags := if f.shared then f else f ||| pCow

/-- The body of the loop of `pt_copy_on_write`, with the number of anonymous pages copied. -/
def copyPage (h : Host) (src dst page : ℕ) : World × ℕ → World × ℕ
  | (w, anonCopied) =>
    match (w.mem src).pt.memPt page with
    | none => (w, anonCopied)
    | some e =>
      let w := ptUnmapAlways h dst page 1 w
      let flags := copyFlags e.flags
      let w := (w.setFlags src page flags).refData e.data
      let w := w.memPtNew dst page { e with flags := flags &&& ~~~pCode }
      (w, if flags.anonymous then anonCopied + 1 else anonCopied)

def ptCopyOnWrite (h : Host) (src dst start pages : ℕ) (w : World) : World :=
  let (w, anonCopied) := forLoop (fun st page => (st.1.mem src).pt.memNextPage page)
    (copyPage h src dst) (start + pages) pages start (w, 0)
  let w := w.addAnon anonCopied
  let copies := (w.mem src).reservations.filter h.reservationOk
  let w := w.setMem dst { w.mem dst with
    reservations := copies.reverse ++ (w.mem dst).reservations }
  (w.memChanged src).memChanged dst

def memDestroy (h : Host) (s : ℕ) (w : World) : World :=
  let w := ptUnmapAlways h s 0 memPages w
  w.setMem s { w.mem s with pt := .empty, reservations := [] }

end ShellBox
