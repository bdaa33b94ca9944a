import ShellBox.Fs.Lock
import Mathlib

/-!
# What a process asks to be locked

A `struct flock` names a range by a start, which is relative to the start of the file, to the
position of the descriptor or to the end of the file, and by a length. The length may be negative,
and is zero for a range that goes to the end of all files.

`file_lock_from_flock` adds these up in 64 bits and looks at no sum. The range is the one that was
asked for if and only if that range lies in the file offsets.
-/

namespace ShellBox

/-- `struct flock_`; `whence` is 0, 1 or 2 for `LSEEK_SET`, `LSEEK_CUR` and `LSEEK_END`. -/
structure Flock where
  type : LockType
  whence : ℕ
  start : BitVec 64
  len : BitVec 64
  pid : ℕ
  deriving DecidableEq

/-- What the filesystem answers about a descriptor: what `lseek(fd, 0, LSEEK_CUR)` gives, if there
is an `lseek`, and the error or the size that `fstat` gives. -/
structure LockFd where
  lseek : Option ℤ
  fstat : Except ℤ (BitVec 64)
  lseek_errno : ∀ o, lseek = some o → -4095 ≤ o ∧ o ≤ offTMax
  fstat_errno : ∀ err, fstat = .error err → err < 0

def LockFd.base (fd : LockFd) (whence : ℕ) : Except ℤ (BitVec 64) :=
  match whence with
  | 0 => .ok 0
  | 1 =>
    match fd.lseek with
    | none => .ok 0
    | some offset => if offset < 0 then .error offset else .ok (BitVec.ofInt 64 offset)
  | 2 => fd.fstat
  | _ => .error (-22)

def Flock.range (flock : Flock) (offset : BitVec 64) : IntRange :=
  let start := flock.start + offset
  if 0 < flock.len.toInt then { start := start.toInt, stop := (start + flock.len - 1).toInt }
  else if flock.len.toInt < 0 then
    { start := (start - 1 + flock.len + 1).toInt, stop := (start - 1).toInt }
  else { start := start.toInt, stop := offTMax }

/-- `file_lock_from_flock`, for a process with these files and this pid. -/
def fileLockFromFlock (fd : LockFd) (flock : Flock) (files : LockOwner) (pid : ℕ) :
    Except ℤ FileLock :=
  match fd.base flock.whence with
  | .error err => .error err
  | .ok offset =>
    .ok { flock.range offset with type := flock.type, owner := files, pid := pid }

def flockFromFileLock (lock : FileLock) : Flock where
  type := lock.type
  whence := 0
  start := BitVec.ofInt 64 lock.start
  len := if lock.stop ≠ offTMax then BitVec.ofInt 64 (lock.stop - lock.start + 1) else 0
  pid := lock.pid

/-! ### The bytes of a request -/

/-- Where the range of a request begins or, if the length is negative, ends. -/
def Flock.origin (flock : Flock) (offset : BitVec 64) : ℤ := flock.start.toInt + offset.toInt

def Flock.Denotes (flock : Flock) (offset : BitVec 64) (x : ℤ) : Prop :=
  if 0 < flock.len.toInt then
    flock.origin offset ≤ x ∧ x < flock.origin offset + flock.len.toInt
  else if flock.len.toInt < 0 then
    flock.origin offset + flock.len.toInt ≤ x ∧ x < flock.origin offset
  else flock.origin offset ≤ x ∧ x ≤ offTMax

def Flock.Fits (flock : Flock) (offset : BitVec 64) : Prop :=
  if 0 < flock.len.toInt then
    0 ≤ flock.origin offset ∧ flock.origin offset + flock.len.toInt - 1 ≤ offTMax
  else if flock.len.toInt < 0 then
    0 ≤ flock.origin offset + flock.len.toInt ∧ flock.origin offset - 1 ≤ offTMax
  else 0 ≤ flock.origin offset ∧ flock.origin offset ≤ offTMax

instance Flock.decidableFits (flock : Flock) (offset : BitVec 64) :
    Decidable (flock.Fits offset) := by
  unfold Flock.Fits
  infer_instance

/-- A request that is accepted gives the lock of its bytes, and what `fcntl_getlk` tells about
this lock is a request for the same range, on whichever descriptor it is made. -/
structure FileLock.Renders (lock : FileLock) (flock : Flock) (offset : BitVec 64) : Prop where
  valid : lock.Valid
  covers : ∀ x, x ∈ lock.toIntRange ↔ flock.Denotes offset x
  back : ∀ fd files pid, ∃ lock', fileLockFromFlock fd (flockFromFileLock lock) files pid =
    .ok lock' ∧ lock'.toIntRange = lock.toIntRange

def FlockConverts (fd : LockFd) (flock : Flock) (files : LockOwner) (pid : ℕ) : Prop :=
  match fileLockFromFlock fd flock files pid with
  | .error err => err < 0
  | .ok lock => ∃ offset, fd.base flock.whence = .ok offset ∧ lock.Renders flock offset

/-! ### Sums in 64 bits -/

lemma toInt_ofInt_offT {x : ℤ} (h₀ : 0 ≤ x) (h : x ≤ offTMax) : (BitVec.ofInt 64 x).toInt = x := by
  rw [BitVec.toInt_ofInt]
  rw [offTMax] at h
  exact Int.bmod_eq_of_le (by omega) (by omega)

lemma Flock.range_eq (flock : Flock) (offset : BitVec 64) : flock.range offset =
    if 0 < flock.len.toInt then
      { start := (flock.origin offset).bmod (2 ^ 64)
        stop := (flock.origin offset + flock.len.toInt - 1).bmod (2 ^ 64) }
    else if flock.len.toInt < 0 then
      { start := (flock.origin offset + flock.len.toInt).bmod (2 ^ 64)
        stop := (flock.origin offset - 1).bmod (2 ^ 64) }
    else { start := (flock.origin offset).bmod (2 ^ 64), stop := offTMax } := by
  have hone : (1 : BitVec 64).toInt = 1 := by decide
  have hstart : (flock.start + offset).toInt = (flock.origin offset).bmod (2 ^ 64) :=
    BitVec.toInt_add _ _
  have hlast : (flock.start + offset - 1).toInt = (flock.origin offset - 1).bmod (2 ^ 64) := by
    rw [BitVec.toInt_sub, hstart, hone, Int.bmod_sub_bmod]
  have hstop : (flock.start + offset + flock.len - 1).toInt =
      (flock.origin offset + flock.len.toInt - 1).bmod (2 ^ 64) := by
    rw [BitVec.toInt_sub, BitVec.toInt_add, hstart, hone, Int.bmod_sub_bmod, add_sub_assoc,
      Int.bmod_add_bmod, ← add_sub_assoc]
  have hfirst : (flock.start + offset - 1 + flock.len + 1).toInt =
      (flock.origin offset + flock.len.toInt).bmod (2 ^ 64) := by
    rw [BitVec.toInt_add, BitVec.toInt_add, hlast, hone, Int.bmod_add_bmod, add_assoc,
      Int.bmod_add_bmod]
    congr 1
    ring
  rw [Flock.range]
  simp only [hstart, hstop, hlast, hfirst]

lemma Flock.Fits.range {flock : Flock} {offset : BitVec 64} (h : flock.Fits offset) :
    flock.range offset =
      if 0 < flock.len.toInt then
        { start := flock.origin offset, stop := flock.origin offset + flock.len.toInt - 1 }
      else if flock.len.toInt < 0 then
        { start := flock.origin offset + flock.len.toInt, stop := flock.origin offset - 1 }
      else { start := flock.origin offset, stop := offTMax } := by
  have hmod : ∀ x : ℤ, 0 ≤ x → x ≤ offTMax → x.bmod (2 ^ 64) = x := by
    intro x h₀ hx
    rw [offTMax] at hx
    exact Int.bmod_eq_of_le (by omega) (by omega)
  rw [Flock.range_eq]
  unfold Flock.Fits at h
  split_ifs at h ⊢ with hpos hneg
  · rw [hmod _ h.1 (by omega), hmod _ (by omega) h.2]
  · rw [hmod _ h.1 (by omega), hmod _ (by omega) h.2]
  · rw [hmod _ h.1 h.2]

lemma Flock.Fits.valid {flock : Flock} {offset : BitVec 64} (h : flock.Fits offset) :
    0 ≤ (flock.range offset).start ∧ (flock.range offset).start ≤ (flock.range offset).stop ∧
      (flock.range offset).stop ≤ offTMax := by
  rw [h.range]
  unfold Flock.Fits at h
  split_ifs at h ⊢ with hpos hneg
  · exact ⟨h.1, by simp only; omega, h.2⟩
  · exact ⟨h.1, by simp only; omega, h.2⟩
  · exact ⟨h.1, h.2, le_refl _⟩

lemma Flock.Fits.mem_range {flock : Flock} {offset : BitVec 64} (h : flock.Fits offset) (x : ℤ) :
    x ∈ flock.range offset ↔ flock.Denotes offset x := by
  rw [h.range, IntRange.mem_iff, Flock.Denotes]
  split_ifs with hpos hneg
  · simp only
    omega
  · simp only
    omega
  · exact Iff.rfl

lemma FileLock.Valid.range_flockFromFileLock {lock : FileLock} (h : lock.Valid) :
    (flockFromFileLock lock).range 0 = lock.toIntRange := by
  obtain ⟨hstart, hle, hstop⟩ := h
  have hzero : (0 : BitVec 64).toInt = 0 := by decide
  have horigin : (flockFromFileLock lock).origin 0 = lock.start := by
    rw [Flock.origin, hzero, add_zero]
    exact toInt_ofInt_offT hstart (hle.trans hstop)
  by_cases hend : lock.stop = offTMax
  · have hlen : (flockFromFileLock lock).len.toInt = 0 := by simp [flockFromFileLock, hend]
    have hfits : (flockFromFileLock lock).Fits 0 := by
      rw [Flock.Fits, horigin, hlen, if_neg (lt_irrefl 0), if_neg (lt_irrefl 0)]
      exact ⟨hstart, hle.trans hstop⟩
    rw [hfits.range, horigin, hlen, if_neg (lt_irrefl 0), if_neg (lt_irrefl 0), ← hend]
  · have hlen : (flockFromFileLock lock).len.toInt = lock.stop - lock.start + 1 := by
      rw [flockFromFileLock, if_pos hend]
      exact toInt_ofInt_offT (by omega) (by omega)
    have hpos : 0 < lock.stop - lock.start + 1 := by omega
    have hlast : lock.start + (lock.stop - lock.start + 1) - 1 = lock.stop := by omega
    have hfits : (flockFromFileLock lock).Fits 0 := by
      rw [Flock.Fits, horigin, hlen, if_pos hpos, hlast]
      exact ⟨hstart, hstop⟩
    rw [hfits.range, horigin, hlen, if_pos hpos, hlast]

/-! ### The conversion is exact when the request fits -/

lemma Flock.Fits.renders {flock : Flock} {offset : BitVec 64} {lock : FileLock}
    (h : flock.Fits offset) (hlock : lock.toIntRange = flock.range offset) :
    lock.Renders flock offset := by
  have hvalid : lock.Valid := by
    rw [FileLock.Valid, hlock]
    exact h.valid
  refine ⟨hvalid, ?_, ?_⟩
  · intro x
    rw [hlock]
    exact h.mem_range x
  · intro fd files pid
    exact ⟨_, rfl, hvalid.range_flockFromFileLock⟩

lemma FileLock.Renders.fits {flock : Flock} {offset : BitVec 64} {lock : FileLock}
    (h : lock.Renders flock offset) : flock.Fits offset := by
  obtain ⟨hstart, hle, hstop⟩ := h.valid
  have hbounds : ∀ x, flock.Denotes offset x → 0 ≤ x ∧ x ≤ offTMax := by
    intro x hx
    obtain ⟨hfirst, hlast⟩ := (h.covers x).2 hx
    exact ⟨hstart.trans hfirst, hlast.trans hstop⟩
  have hsome : flock.Denotes offset lock.start := (h.covers _).1 ⟨le_refl _, hle⟩
  unfold Flock.Denotes at hbounds hsome
  unfold Flock.Fits
  split_ifs at hbounds hsome ⊢ with hpos hneg
  · exact ⟨(hbounds _ ⟨le_refl _, by omega⟩).1, (hbounds _ ⟨by omega, by omega⟩).2⟩
  · exact ⟨(hbounds _ ⟨le_refl _, by omega⟩).1, (hbounds _ ⟨by omega, by omega⟩).2⟩
  · have horigin : flock.origin offset ≤ offTMax := hsome.1.trans hsome.2
    exact ⟨(hbounds _ ⟨le_refl _, horigin⟩).1, horigin⟩

lemma LockFd.base_errno {fd : LockFd} {whence : ℕ} {err : ℤ} (h : fd.base whence = .error err) :
    err < 0 := by
  unfold base at h
  split at h
  · cases h
  · split at h
    · cases h
    · split_ifs at h with hneg
      rw [← Except.error.inj h]
      exact hneg
  · exact fd.fstat_errno err h
  · rw [← Except.error.inj h]
    decide

/-- The conversion is exact if and only if the bytes of the request are file offsets. -/
theorem fileLockFromFlock_converts_iff (fd : LockFd) (flock : Flock) (files : LockOwner)
    (pid : ℕ) : FlockConverts fd flock files pid ↔
      ∀ offset, fd.base flock.whence = .ok offset → flock.Fits offset := by
  unfold FlockConverts fileLockFromFlock
  cases hbase : fd.base flock.whence with
  | error err => simpa using LockFd.base_errno hbase
  | ok offset =>
    simp only [Except.ok.injEq, exists_eq_left', forall_eq']
    exact ⟨fun hlock => hlock.fits, fun hfits => hfits.renders rfl⟩

/-- A request for the last file offset and the byte behind it: the end of the range wraps. -/
theorem fileLockFromFlock_wraps :
    (fileLockFromFlock ⟨none, .ok 0, fun _ h => (by cases h), fun _ h => (by cases h)⟩
      ⟨.wrlck, 0, BitVec.ofInt 64 offTMax, 2, 1⟩ 1 1 =
        .ok ⟨⟨offTMax, -2 ^ 63⟩, .wrlck, 1, 1⟩) ∧
    ¬ FlockConverts ⟨none, .ok 0, fun _ h => (by cases h), fun _ h => (by cases h)⟩
      ⟨.wrlck, 0, BitVec.ofInt 64 offTMax, 2, 1⟩ 1 1 := by
  refine ⟨by decide, ?_⟩
  rintro ⟨offset, hoffset, hlock⟩
  obtain rfl : 0 = offset := Except.ok.inj hoffset
  exact absurd hlock.fits (by decide)

end ShellBox
