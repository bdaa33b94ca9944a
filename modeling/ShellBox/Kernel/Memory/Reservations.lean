import ShellBox.Kernel.Memory.Basic

/-!
# Lazy reservations

A large `MAP_NORESERVE` or `PROT_NONE` mapping is only recorded as a range with its flags;
its pages get entries when they are touched. The records form a list, which unmapping edits
in place: a record is dropped, trimmed at one end, or split in two.
-/

namespace ShellBox

/-- `struct mem_reservation`, without its list link. A reservation ends inside the guest
address space, and its flags are those of a mapping. -/
structure MemReservation where
  start : ℕ
  pages : ℕ
  flags : Flags
  fits : start + pages ≤ memPages
  mapFlags : flags.IsMapFlags

namespace MemReservation

def covers (r : MemReservation) (page : ℕ) : Bool := r.start ≤ page && page < r.start + r.pages

/-- The reserved range meets `[start, start + pages)`. -/
def meets (r : MemReservation) (start pages : ℕ) : Bool :=
  r.start < start + pages && start < r.start + r.pages

/-- What is left of a reservation below `stop`. -/
def below (r : MemReservation) (stop : ℕ) (h : stop ≤ r.start + r.pages) : MemReservation where
  start := r.start
  pages := stop - r.start
  flags := r.flags
  fits := by have := r.fits; omega
  mapFlags := r.mapFlags

/-- What is left of a reservation from `start` on. -/
def above (r : MemReservation) (start : ℕ) (h : start ≤ r.start + r.pages) : MemReservation where
  start := start
  pages := r.start + r.pages - start
  flags := r.flags
  fits := by have := r.fits; omega
  mapFlags := r.mapFlags

end MemReservation

def memFindReservation (rs : List MemReservation) (page : ℕ) : Option MemReservation :=
  rs.find? (·.covers page)

/-- `reservations_overlap`, which is also `hole_overlaps_reservation`. -/
def reservationsOverlap (rs : List MemReservation) (start pages : ℕ) : Bool :=
  rs.any (·.meets start pages)

/-- `mem_remove_reservations`. Splitting a record allocates its upper part; when `tailOk`
says that this fails, the whole record stays. -/
def memRemoveReservations (tailOk : MemReservation → Bool) (start pages : ℕ) :
    List MemReservation → List MemReservation
  | [] => []
  | r :: rs =>
    if h₀ : start + pages ≤ r.start ∨ r.start + r.pages ≤ start then
      r :: memRemoveReservations tailOk start pages rs
    else if h₁ : start ≤ r.start ∧ r.start + r.pages ≤ start + pages then
      memRemoveReservations tailOk start pages rs
    else if h₂ : r.start < start ∧ start + pages < r.start + r.pages then
      if tailOk r then
        r.below start (by omega) :: r.above (start + pages) (by omega) ::
          memRemoveReservations tailOk start pages rs
      else r :: memRemoveReservations tailOk start pages rs
    else if h₃ : r.start < start then
      r.below start (by omega) :: memRemoveReservations tailOk start pages rs
    else
      r.above (start + pages) (by omega) :: memRemoveReservations tailOk start pages rs

lemma fits_of_memFindReservation {rs : List MemReservation} {page : ℕ} {r : MemReservation}
    (h : memFindReservation rs page = some r) : page < memPages := by
  have hcov := List.find?_some h
  have hfits := r.fits
  simp only [MemReservation.covers, Bool.and_eq_true, decide_eq_true_eq] at hcov
  omega

end ShellBox
