import Mathlib.Data.Int.Basic
import Mathlib.Tactic.Common
import Mathlib.Tactic.Linarith

/-!
# Times in seconds and nanoseconds

The seconds and the nanoseconds of `struct timespec` are 64 bits wide. A time is normal if its
nanoseconds are less than a second.
-/

namespace ShellBox

structure Timespec where
  sec : ℤ
  nsec : ℤ
  deriving DecidableEq

def nsPerSec : ℤ := 1000000000

/-- A `long` that has overflowed. -/
def wrapLong (x : ℤ) : ℤ := x.bmod (2 ^ 64)

def timespecAdd (x y : Timespec) : Timespec :=
  if nsPerSec ≤ wrapLong (x.nsec + y.nsec) then
    ⟨wrapLong (wrapLong (x.sec + y.sec) + 1), wrapLong (x.nsec + y.nsec) - nsPerSec⟩
  else ⟨wrapLong (x.sec + y.sec), wrapLong (x.nsec + y.nsec)⟩

def timespecSubtract (x y : Timespec) : Timespec :=
  if x.nsec < y.nsec then
    ⟨wrapLong (wrapLong (x.sec - 1) - y.sec), wrapLong (wrapLong (x.nsec + nsPerSec) - y.nsec)⟩
  else ⟨wrapLong (x.sec - y.sec), wrapLong (x.nsec - y.nsec)⟩

def timespecIsZero (x : Timespec) : Bool := x.sec = 0 ∧ x.nsec = 0

def timespecPositive (x : Timespec) : Bool := 0 < x.sec ∨ x.sec = 0 ∧ 0 < x.nsec

namespace Timespec

def ns (x : Timespec) : ℤ := x.sec * nsPerSec + x.nsec

def Normal (x : Timespec) : Prop := 0 ≤ x.nsec ∧ x.nsec < nsPerSec

instance decidableNormal (x : Timespec) : Decidable x.Normal :=
  inferInstanceAs (Decidable (_ ∧ _))

end Timespec

def FitsTimespec (n : ℤ) : Prop := -2 ^ 63 * nsPerSec ≤ n ∧ n < 2 ^ 63 * nsPerSec

instance decidableFitsTimespec (n : ℤ) : Decidable (FitsTimespec n) :=
  inferInstanceAs (Decidable (_ ∧ _))

lemma wrapLong_of_fits {x : ℤ} (h : -2 ^ 63 ≤ x) (h' : x < 2 ^ 63) : wrapLong x = x :=
  Int.bmod_eq_of_le (by omega) (by omega)

lemma wrapLong_add (x y : ℤ) : wrapLong (wrapLong x + y) = wrapLong (x + y) := Int.bmod_add_bmod ..

lemma wrapLong_sub (x y : ℤ) : wrapLong (wrapLong x - y) = wrapLong (x - y) := Int.bmod_sub_bmod ..

variable {x y : Timespec}

lemma timespecAdd_spec (hx : x.Normal) (hy : y.Normal) (h : FitsTimespec (x.ns + y.ns)) :
    (timespecAdd x y).Normal ∧ (timespecAdd x y).ns = x.ns + y.ns := by
  obtain ⟨hx0, hx1⟩ := hx
  obtain ⟨hy0, hy1⟩ := hy
  unfold FitsTimespec Timespec.ns nsPerSec at h
  unfold nsPerSec at hx1 hy1
  have hnsec : wrapLong (x.nsec + y.nsec) = x.nsec + y.nsec :=
    wrapLong_of_fits (by omega) (by omega)
  unfold timespecAdd nsPerSec
  rw [hnsec, wrapLong_add]
  split_ifs with hcarry
  · have hsec : wrapLong (x.sec + y.sec + 1) = x.sec + y.sec + 1 :=
      wrapLong_of_fits (by omega) (by omega)
    simp only [Timespec.Normal, Timespec.ns, nsPerSec, hsec]
    omega
  · have hsec : wrapLong (x.sec + y.sec) = x.sec + y.sec :=
      wrapLong_of_fits (by omega) (by omega)
    simp only [Timespec.Normal, Timespec.ns, nsPerSec, hsec]
    omega

lemma timespecSubtract_spec (hx : x.Normal) (hy : y.Normal) (h : FitsTimespec (x.ns - y.ns)) :
    (timespecSubtract x y).Normal ∧ (timespecSubtract x y).ns = x.ns - y.ns := by
  obtain ⟨hx0, hx1⟩ := hx
  obtain ⟨hy0, hy1⟩ := hy
  unfold FitsTimespec Timespec.ns nsPerSec at h
  unfold nsPerSec at hx1 hy1
  unfold timespecSubtract nsPerSec
  rw [wrapLong_sub, wrapLong_sub]
  split_ifs with hborrow
  · have hnsec : wrapLong (x.nsec + 1000000000 - y.nsec) = x.nsec + 1000000000 - y.nsec :=
      wrapLong_of_fits (by omega) (by omega)
    have hsec : wrapLong (x.sec - 1 - y.sec) = x.sec - 1 - y.sec :=
      wrapLong_of_fits (by omega) (by omega)
    simp only [Timespec.Normal, Timespec.ns, nsPerSec, hsec, hnsec]
    omega
  · have hnsec : wrapLong (x.nsec - y.nsec) = x.nsec - y.nsec :=
      wrapLong_of_fits (by omega) (by omega)
    have hsec : wrapLong (x.sec - y.sec) = x.sec - y.sec :=
      wrapLong_of_fits (by omega) (by omega)
    simp only [Timespec.Normal, Timespec.ns, nsPerSec, hsec, hnsec]
    omega

lemma timespecIsZero_iff (hx : x.Normal) : timespecIsZero x ↔ x.ns = 0 := by
  obtain ⟨h0, h1⟩ := hx
  unfold nsPerSec at h1
  simp only [timespecIsZero, Timespec.ns, nsPerSec, decide_eq_true_eq]
  omega

lemma timespecPositive_iff (hx : x.Normal) : timespecPositive x ↔ 0 < x.ns := by
  obtain ⟨h0, h1⟩ := hx
  unfold nsPerSec at h1
  simp only [timespecPositive, Timespec.ns, nsPerSec, decide_eq_true_eq]
  omega

end ShellBox
