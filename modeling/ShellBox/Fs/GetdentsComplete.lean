import ShellBox.Logic.SignedCount
import ShellBox.Fs.Getdents

/-!
# When a listing is complete

A directory that does not change is a list of entries, read from a position that `telldir` notes
and `seekdir` goes back to. The calls of a run deliver every entry they take from it, unless a
call returns an error after it has taken one, or returns a count that is negative as an `int_t`.
A buffer that is too small for the next entry looks like the end of the directory.
-/

namespace ShellBox

variable {S : Type} {ops : DirOps S}

/-- The contents of a directory, and the position of an open one. A read that fails does not move
on, and `seekdir` goes to where `telldir` was. -/
structure DirStream (ops : DirOps S) where
  entries : List DirEntry
  pos : DirFd S → ℕ
  pos_le : ∀ fd, pos fd ≤ entries.length
  next : ∀ {fd fd' e}, ops.readdir fd = (.ok (some e), fd') →
    entries[pos fd]? = some e ∧ pos fd' = pos fd + 1
  finish : ∀ {fd fd'}, ops.readdir fd = (.ok none, fd') → pos fd = entries.length
  failed : ∀ {fd fd' err}, ops.readdir fd = (.error err, fd') → err < 0 ∧ pos fd' = pos fd
  seek : ∀ fd fd', pos (ops.fdSeekdir fd' (ops.fdTelldir fd)) = pos fd

namespace DirStream

def rest (ds : DirStream ops) (fd : DirFd S) : List DirEntry := ds.entries.drop (ds.pos fd)

variable (ds : DirStream ops) {fd fd' : DirFd S} {e : DirEntry}

lemma length_rest (fd : DirFd S) : (ds.rest fd).length = ds.entries.length - ds.pos fd := by
  simp [rest]

lemma rest_next (h : ops.readdir fd = (.ok (some e), fd')) : ds.rest fd = e :: ds.rest fd' := by
  obtain ⟨he, hpos⟩ := ds.next h
  obtain ⟨hlt, rfl⟩ := List.getElem?_eq_some_iff.mp he
  rw [rest, rest, hpos, List.drop_eq_getElem_cons hlt]

lemma rest_finish (h : ops.readdir fd = (.ok none, fd')) : ds.rest fd = [] := by
  rw [rest, ds.finish h, List.drop_length]

end DirStream

/-! ### The entries a call has room for -/

namespace Dirent

def fitting (d : Dirent) : List DirEntry → ℕ → List DirEntry
  | [], _ => []
  | e :: es, count => if count < d.reclen e then [] else e :: d.fitting es (count - d.reclen e)

def size (d : Dirent) (es : List DirEntry) : ℕ := (es.map d.reclen).sum

@[simp] lemma size_nil (d : Dirent) : d.size [] = 0 := rfl

@[simp] lemma size_cons (d : Dirent) (e : DirEntry) (es : List DirEntry) :
    d.size (e :: es) = d.reclen e + d.size es := by simp [size]

lemma size_fitting_le (d : Dirent) (es : List DirEntry) (count : ℕ) :
    d.size (d.fitting es count) ≤ count := by
  induction es generalizing count with
  | nil => simp [fitting]
  | cons e es ih =>
    rw [fitting]
    split_ifs with h
    · simp
    · have := ih (count - d.reclen e)
      rw [size_cons]
      omega

lemma fitting_eq_take (d : Dirent) (es : List DirEntry) (count : ℕ) :
    d.fitting es count = es.take (d.fitting es count).length := by
  induction es generalizing count with
  | nil => simp [fitting]
  | cons e es ih =>
    rw [fitting]
    split_ifs with h
    · simp
    · rw [List.length_cons, List.take_succ_cons, ← ih]

lemma fitting_eq_nil_iff (d : Dirent) (e : DirEntry) (es : List DirEntry) (count : ℕ) :
    d.fitting (e :: es) count = [] ↔ count < d.reclen e := by
  rw [fitting]
  split_ifs with h <;> simp [h]

lemma eq_nil_of_size_eq_zero (d : Dirent) {es : List DirEntry} (h : d.size es = 0) : es = [] := by
  cases es with
  | nil => rfl
  | cons e es =>
    have := d.reclen_pos e
    rw [size_cons] at h
    omega

end Dirent

/-- None of the first `m + 1` reads fails. -/
def DirOps.ReadsAll (ops : DirOps S) : DirFd S → ℕ → Prop
  | fd, 0 => ¬ ops.Fails fd
  | fd, m + 1 => ¬ ops.Fails fd ∧ ops.ReadsAll (ops.readdir fd).2 m

lemma DirOps.ReadsAll.not_fails {fd : DirFd S} {m : ℕ} (h : ops.ReadsAll fd m) :
    ¬ ops.Fails fd := by
  cases m with
  | zero => exact h
  | succ m => exact h.1

namespace GetdentsCall

def WritesAll (c : GetdentsCall) : ℕ → List DirEntry → Prop
  | _, [] => True
  | dirents, e :: es =>
    c.userWrite dirents (c.layout.reclen e) = true ∧
      c.WritesAll ((dirents + c.layout.reclen e) % 2 ^ 64) es

inductive Wrote (c : GetdentsCall) : ℕ → List (ℕ × List UInt8) → List DirEntry → Prop
  | nil (dirents : ℕ) : c.Wrote dirents [] []
  | cons {dirents : ℕ} {ws : List (ℕ × List UInt8)} {es : List DirEntry} (e : DirEntry)
      (offset : ℕ) (h : c.Wrote ((dirents + c.layout.reclen e) % 2 ^ 64) ws es) :
      c.Wrote dirents ((dirents, c.layout.fill e.inode offset e.name 0) :: ws) (e :: es)

variable {c : GetdentsCall} {dirents : ℕ} {ws : List (ℕ × List UInt8)} {es : List DirEntry}

lemma Wrote.inside (h : c.Wrote dirents ws es) :
    ∀ w ∈ ws, ∃ off, w.1 % 2 ^ 64 = (dirents + off) % 2 ^ 64 ∧
      off + w.2.length ≤ c.layout.size es := by
  induction h with
  | nil dirents => simp
  | @cons dirents ws es e offset _ ih =>
    intro w hw
    rcases List.mem_cons.mp hw with rfl | hw
    · exact ⟨0, by simp, by simp⟩
    · obtain ⟨off, haddr, hlen⟩ := ih w hw
      refine ⟨c.layout.reclen e + off, ?_, by rw [Dirent.size_cons]; omega⟩
      rw [haddr, Nat.mod_add_mod, Nat.add_assoc]

lemma Wrote.reads (h : c.Wrote dirents ws es) {n : ℕ} (hn : (ws.flatMap (·.2)).length ≤ n) :
    c.layout.readRecords n (ws.flatMap (·.2)) = es.map c.layout.view := by
  induction h generalizing n with
  | nil dirents => cases n <;> simp [Dirent.readRecords]
  | @cons dirents ws es e offset _ ih =>
    have hlen := c.layout.length_fill e offset 0
    have hpos := c.layout.reclen_pos e
    rw [List.flatMap_cons] at hn ⊢
    cases n with
    | zero =>
      simp only [List.length_append] at hn
      omega
    | succ n =>
      have hne : c.layout.fill e.inode offset e.name 0 ++ ws.flatMap (·.2) ≠ [] := by
        intro hnil
        have := congrArg List.length hnil
        simp only [List.length_append, List.length_nil] at this
        omega
      rw [Dirent.readRecords, if_neg hne, Dirent.readRecord_fill, Dirent.reclen_fill, ← hlen,
        List.drop_left, ih (by simp only [List.length_append] at hn; omega), List.map_cons]

end GetdentsCall

/-! ### What a call does -/

section Loop

variable (c : GetdentsCall) {fd fd' : DirFd S} {dirents count : ℕ} {e : DirEntry} {err : ℤ}

lemma getdentsLoop_error (h : ops.readdir fd = (.error err, fd')) :
    getdentsLoop ops c fd dirents count = ⟨.returns err, fd', []⟩ := by
  rw [getdentsLoop, h]

lemma getdentsLoop_none (h : ops.readdir fd = (.ok none, fd')) :
    getdentsLoop ops c fd dirents count =
      ⟨.breaks count, ops.fdSeekdir fd' (ops.fdTelldir fd), []⟩ := by
  rw [getdentsLoop, h]

lemma getdentsLoop_full (h : ops.readdir fd = (.ok (some e), fd'))
    (hfull : count < c.layout.reclen e) :
    getdentsLoop ops c fd dirents count =
      ⟨.breaks count, ops.fdSeekdir fd' (ops.fdTelldir fd), []⟩ := by
  rw [getdentsLoop, h]
  simp [hfull]

lemma getdentsLoop_fault (h : ops.readdir fd = (.ok (some e), fd'))
    (hfits : ¬ count < c.layout.reclen e)
    (hw : c.userWrite dirents (c.layout.reclen e) = false) :
    getdentsLoop ops c fd dirents count =
      ⟨.returns eFault, fd', [(dirents, c.layout.fill e.inode (ops.fdTelldir fd') e.name 0)]⟩ := by
  rw [getdentsLoop, h]
  simp [hfits, hw]

lemma getdentsLoop_write (h : ops.readdir fd = (.ok (some e), fd'))
    (hfits : ¬ count < c.layout.reclen e)
    (hw : c.userWrite dirents (c.layout.reclen e) = true) :
    getdentsLoop ops c fd dirents count =
      { getdentsLoop ops c fd' ((dirents + c.layout.reclen e) % 2 ^ 64)
          (count - c.layout.reclen e) with
        writes := (dirents, c.layout.fill e.inode (ops.fdTelldir fd') e.name 0) ::
          (getdentsLoop ops c fd' ((dirents + c.layout.reclen e) % 2 ^ 64)
            (count - c.layout.reclen e)).writes } := by
  rw [getdentsLoop, h]
  simp [hfits, hw]

lemma not_fails_of_ok {res : Option DirEntry} (h : ops.readdir fd = (.ok res, fd')) :
    ¬ ops.Fails fd := by
  rintro ⟨err, herr⟩
  rw [h] at herr
  cases herr

lemma getdentsLoop_cases (ds : DirStream ops) (fd : DirFd S) (dirents count : ℕ) :
    (ops.ReadsAll fd (c.layout.fitting (ds.rest fd) count).length ∧
      c.WritesAll dirents (c.layout.fitting (ds.rest fd) count) ∧
      (getdentsLoop ops c fd dirents count).exit =
        .breaks (count - c.layout.size (c.layout.fitting (ds.rest fd) count)) ∧
      ds.pos (getdentsLoop ops c fd dirents count).fd =
        ds.pos fd + (c.layout.fitting (ds.rest fd) count).length ∧
      c.Wrote dirents (getdentsLoop ops c fd dirents count).writes
        (c.layout.fitting (ds.rest fd) count)) ∨
    (¬ (ops.ReadsAll fd (c.layout.fitting (ds.rest fd) count).length ∧
        c.WritesAll dirents (c.layout.fitting (ds.rest fd) count)) ∧
      (∃ err < 0, (getdentsLoop ops c fd dirents count).exit = .returns err) ∧
      ∃ m, m ≤ (c.layout.fitting (ds.rest fd) count).length ∧
        ds.pos (getdentsLoop ops c fd dirents count).fd = ds.pos fd + m ∧
        (m = 0 ↔ ops.Fails fd) ∧
        c.Wrote dirents (getdentsLoop ops c fd dirents count).writes
          ((c.layout.fitting (ds.rest fd) count).take m)) := by
  induction count using Nat.strong_induction_on generalizing fd dirents with
  | _ count ih =>
    rcases hread : ops.readdir fd with ⟨err | _ | e, fd'⟩
    · -- the read fails
      obtain ⟨herr, hpos⟩ := ds.failed hread
      have hfails : ops.Fails fd := ⟨err, by rw [hread]⟩
      rw [getdentsLoop_error c hread]
      refine .inr ⟨?_, ⟨err, herr, rfl⟩, 0, Nat.zero_le _, hpos, by simp [hfails], .nil _⟩
      exact fun h => h.1.not_fails hfails
    · -- the end of the directory
      rw [getdentsLoop_none c hread, ds.rest_finish hread]
      exact .inl ⟨not_fails_of_ok hread, trivial, rfl, ds.seek fd fd', .nil _⟩
    · rw [ds.rest_next hread, Dirent.fitting]
      by_cases hfull : count < c.layout.reclen e
      · rw [getdentsLoop_full c hread hfull, if_pos hfull]
        exact .inl ⟨not_fails_of_ok hread, trivial, rfl, ds.seek fd fd', .nil _⟩
      rw [if_neg hfull]
      have hpos := (ds.next hread).2
      have hsnd : (ops.readdir fd).2 = fd' := by rw [hread]
      cases hw : c.userWrite dirents (c.layout.reclen e) with
      | false =>
        rw [getdentsLoop_fault c hread hfull hw]
        refine .inr ⟨fun h => ?_, ⟨eFault, by decide, rfl⟩, 1, by simp, hpos,
          by simp [not_fails_of_ok hread], .cons e _ (.nil _)⟩
        rw [GetdentsCall.WritesAll, hw] at h
        exact absurd h.2.1 (by decide)
      | true =>
        have hsmall : 0 < c.layout.reclen e := c.layout.reclen_pos e
        rw [getdentsLoop_write c hread hfull hw]
        simp only [List.length_cons, DirOps.ReadsAll, GetdentsCall.WritesAll, hsnd, hw, true_and,
          not_fails_of_ok hread, not_false_eq_true, Dirent.size_cons]
        rcases ih (count - c.layout.reclen e) (by omega) fd'
            ((dirents + c.layout.reclen e) % 2 ^ 64) with
          ⟨hr, hws, hexit, hend, hwrote⟩ | ⟨hnot, hexit, m, hm, hend, -, hwrote⟩
        · refine .inl ⟨hr, hws, ?_, by rw [hend, hpos]; omega, .cons e _ hwrote⟩
          rw [hexit, Nat.sub_sub]
        · refine .inr ⟨hnot, hexit, m + 1, by omega, by rw [hend, hpos]; omega, by simp, ?_⟩
          exact .cons e _ hwrote

lemma getdentsCommon_cases (ds : DirStream ops) (fd : DirFd S) :
    (ops.ReadsAll fd (c.layout.fitting (ds.rest fd) c.count).length ∧
      c.WritesAll c.dirents (c.layout.fitting (ds.rest fd) c.count) ∧
      (getdentsCommon ops c fd).ret =
        (BitVec.ofNat 32 (c.layout.size (c.layout.fitting (ds.rest fd) c.count))).toInt ∧
      ds.pos (getdentsCommon ops c fd).fd =
        ds.pos fd + (c.layout.fitting (ds.rest fd) c.count).length ∧
      c.Wrote c.dirents (getdentsCommon ops c fd).writes
        (c.layout.fitting (ds.rest fd) c.count)) ∨
    (¬ (ops.ReadsAll fd (c.layout.fitting (ds.rest fd) c.count).length ∧
        c.WritesAll c.dirents (c.layout.fitting (ds.rest fd) c.count)) ∧
      (getdentsCommon ops c fd).ret < 0 ∧
      ∃ m, m ≤ (c.layout.fitting (ds.rest fd) c.count).length ∧
        ds.pos (getdentsCommon ops c fd).fd = ds.pos fd + m ∧ (m = 0 ↔ ops.Fails fd) ∧
        c.Wrote c.dirents (getdentsCommon ops c fd).writes
          ((c.layout.fitting (ds.rest fd) c.count).take m)) := by
  rcases getdentsLoop_cases c ds fd c.dirents c.count with
    ⟨hr, hws, hexit, hend, hwrote⟩ | ⟨hnot, ⟨err, herr, hexit⟩, m, hm, hend, hfails, hwrote⟩
  · have hle := c.layout.size_fitting_le (ds.rest fd) c.count
    simp only [getdentsCommon, hexit]
    rw [Nat.sub_sub_self hle]
    exact .inl ⟨hr, hws, rfl, hend, hwrote⟩
  · simp only [getdentsCommon, hexit]
    exact .inr ⟨hnot, herr, m, hm, hend, hfails, hwrote⟩

end Loop

/-! ### Complete listings -/

def Shows (d : Dirent × ℕ × List UInt8) (e : DirEntry) : Prop := d.2 = d.1.view e

/-- The listing of a run is complete: the calls that have not failed delivered all entries from
where the directory was to where it is, each once and in order; zero is only returned at the end,
a buffer that is too small for the next entry gives `EINVAL`, and every record lies in the buffer
of its call. -/
structure RunLists (ds : DirStream ops) (fd : DirFd S) (calls : List GetdentsCall) : Prop where
  delivered : List.Forall₂ Shows
    ((getdentsRun ops fd calls).flatMap fun s => s.result.delivered s.call)
    ((ds.rest fd).take (ds.pos (getdentsEnd ops fd calls) - ds.pos fd))
  forward : ds.pos fd ≤ ds.pos (getdentsEnd ops fd calls)
  zero : ∀ s ∈ getdentsRun ops fd calls, s.result.ret = 0 → ds.rest s.fd = []
  small : ∀ s ∈ getdentsRun ops fd calls, ∀ e es, ds.rest s.fd = e :: es → ¬ ops.Fails s.fd →
    s.call.count < s.call.layout.reclen e → s.result.ret = eInval
  inside : ∀ s ∈ getdentsRun ops fd calls, ∀ w ∈ s.result.writes, ∃ off,
    w.1 % 2 ^ 64 = (s.call.dirents + off) % 2 ^ 64 ∧ off + w.2.length ≤ s.call.count

/-- A call keeps all entries: the first read fails, so that it takes none, or all reads succeed,
the buffer takes all records that fit, and the count is positive as an `int_t`. -/
def GetdentsCall.Keeps (c : GetdentsCall) (ds : DirStream ops) (fd : DirFd S) : Prop :=
  ops.Fails fd ∨
    ops.ReadsAll fd (c.layout.fitting (ds.rest fd) c.count).length ∧
      c.WritesAll c.dirents (c.layout.fitting (ds.rest fd) c.count) ∧
      c.layout.size (c.layout.fitting (ds.rest fd) c.count) < 2 ^ 31

/-- A call keeps all entries, and has room for the next entry if there is one. -/
def GetdentsCall.Fits (c : GetdentsCall) (ds : DirStream ops) (fd : DirFd S) : Prop :=
  c.Keeps ds fd ∧
    (ops.Fails fd ∨ ∀ e es, ds.rest fd = e :: es → c.layout.reclen e ≤ c.count)

section Run

variable (c : GetdentsCall) {fd : DirFd S}

lemma delivered_of_wrote {r : GetdentsResult S} {es : List DirEntry} (hret : 0 ≤ r.ret)
    (h : c.Wrote c.dirents r.writes es) :
    r.delivered c = es.map fun e => (c.layout, c.layout.view e) := by
  rw [GetdentsResult.delivered, if_pos hret, h.reads le_rfl, List.map_map]
  rfl

lemma delivered_of_neg {r : GetdentsResult S} (hret : r.ret < 0) : r.delivered c = [] :=
  if_neg (by omega)

lemma forall₂_shows_map (es : List DirEntry) :
    List.Forall₂ Shows (es.map fun e => (c.layout, c.layout.view e)) es := by
  induction es with
  | nil => exact .nil
  | cons e es ih => exact .cons rfl ih

lemma getdentsCommon_advance (ds : DirStream ops) (fd : DirFd S) :
    ∃ m, ds.pos (getdentsCommon ops c fd).fd = ds.pos fd + m ∧
      ((getdentsCommon ops c fd).delivered c).length ≤ m ∧
      (((getdentsCommon ops c fd).delivered c).length = m ↔ c.Keeps ds fd) ∧
      (c.Keeps ds fd → List.Forall₂ Shows ((getdentsCommon ops c fd).delivered c)
        ((ds.rest fd).take m)) := by
  have hlt := (c.layout.size_fitting_le (ds.rest fd) c.count).trans_lt c.count_lt
  rcases getdentsCommon_cases c ds fd with
    ⟨hr, hws, hret, hend, hwrote⟩ | ⟨hnot, hret, m, hm, hend, hfails, -⟩
  · refine ⟨_, hend, ?_⟩
    have hnofail := hr.not_fails
    have hkeeps : c.Keeps ds fd ↔
        c.layout.size (c.layout.fitting (ds.rest fd) c.count) < 2 ^ 31 := by
      simp [GetdentsCall.Keeps, hr, hws, hnofail]
    by_cases hsize : c.layout.size (c.layout.fitting (ds.rest fd) c.count) < 2 ^ 31
    · have hnonneg : 0 ≤ (getdentsCommon ops c fd).ret := by
        rw [hret]
        exact (toInt_ofNat_nonneg_iff hlt).mpr (by omega)
      rw [delivered_of_wrote c hnonneg hwrote, ← c.layout.fitting_eq_take]
      exact ⟨by simp, iff_of_true (by simp) (hkeeps.mpr hsize), fun _ => forall₂_shows_map c _⟩
    · have hneg : (getdentsCommon ops c fd).ret < 0 := by
        rw [hret]
        exact not_le.mp fun h => hsize (by have := (toInt_ofNat_nonneg_iff hlt).mp h; omega)
      rw [delivered_of_neg c hneg, hkeeps]
      refine ⟨Nat.zero_le _, ?_, fun h => absurd h hsize⟩
      refine iff_of_false (fun h => hsize ?_) hsize
      rw [List.length_eq_zero_iff.mp h.symm]
      simp
  · refine ⟨m, hend, ?_⟩
    have hkeeps : c.Keeps ds fd ↔ ops.Fails fd :=
      ⟨fun h => h.resolve_right fun h => hnot ⟨h.1, h.2.1⟩, .inl⟩
    rw [delivered_of_neg c hret, hkeeps, ← hfails]
    refine ⟨Nat.zero_le _, by simp [eq_comm], fun h => ?_⟩
    rw [h, List.take_zero]
    exact .nil

lemma getdentsCommon_inside (ds : DirStream ops) (fd : DirFd S) :
    ∀ w ∈ (getdentsCommon ops c fd).writes, ∃ off,
      w.1 % 2 ^ 64 = (c.dirents + off) % 2 ^ 64 ∧ off + w.2.length ≤ c.count := by
  have hle := c.layout.size_fitting_le (ds.rest fd) c.count
  have within : ∀ {ws es}, c.Wrote c.dirents ws es → c.layout.size es ≤ c.count →
      ∀ w ∈ ws, ∃ off, w.1 % 2 ^ 64 = (c.dirents + off) % 2 ^ 64 ∧ off + w.2.length ≤ c.count := by
    intro ws es hwrote hsize w hw
    obtain ⟨off, haddr, hlen⟩ := hwrote.inside w hw
    exact ⟨off, haddr, hlen.trans hsize⟩
  rcases getdentsCommon_cases c ds fd with ⟨-, -, -, -, hwrote⟩ | ⟨-, -, m, -, -, -, hwrote⟩
  · exact within hwrote hle
  · refine within hwrote (le_trans ?_ hle)
    exact ((List.take_sublist _ _).map c.layout.reclen).sum_le_sum (by simp)

lemma getdentsCommon_ret (ds : DirStream ops) (hkeeps : c.Keeps ds fd) (hnot : ¬ ops.Fails fd) :
    (getdentsCommon ops c fd).ret = 0 ↔ c.layout.fitting (ds.rest fd) c.count = [] := by
  have hlt := (c.layout.size_fitting_le (ds.rest fd) c.count).trans_lt c.count_lt
  obtain ⟨hr, hws, -⟩ := hkeeps.resolve_left hnot
  rcases getdentsCommon_cases c ds fd with ⟨-, -, hret, -, -⟩ | ⟨h, -⟩
  · rw [hret, toInt_ofNat_eq_zero_iff hlt]
    exact ⟨c.layout.eq_nil_of_size_eq_zero, fun h => by rw [h, Dirent.size_nil]⟩
  · exact absurd ⟨hr, hws⟩ h

lemma getdentsCommon_neg_of_fails (ds : DirStream ops) (h : ops.Fails fd) :
    (getdentsCommon ops c fd).ret < 0 := by
  rcases getdentsCommon_cases c ds fd with ⟨hr, -⟩ | ⟨-, hret, -⟩
  · exact absurd h hr.not_fails
  · exact hret

lemma getdentsRun_result (calls : List GetdentsCall) :
    ∀ s ∈ getdentsRun ops fd calls, s.result = getdentsCommon ops s.call s.fd := by
  induction calls generalizing fd with
  | nil => simp [getdentsRun]
  | cons c cs ih =>
    intro s hs
    rcases List.mem_cons.mp hs with rfl | hs
    · rfl
    · exact ih s hs

lemma getdentsRun_advance (ds : DirStream ops) (fd : DirFd S) (calls : List GetdentsCall) :
    ∃ m, ds.pos (getdentsEnd ops fd calls) = ds.pos fd + m ∧
      ((getdentsRun ops fd calls).flatMap fun s => s.result.delivered s.call).length ≤ m ∧
      (((getdentsRun ops fd calls).flatMap fun s => s.result.delivered s.call).length = m ↔
        ∀ s ∈ getdentsRun ops fd calls, s.call.Keeps ds s.fd) ∧
      ((∀ s ∈ getdentsRun ops fd calls, s.call.Keeps ds s.fd) → List.Forall₂ Shows
        ((getdentsRun ops fd calls).flatMap fun s => s.result.delivered s.call)
        ((ds.rest fd).take m)) := by
  induction calls generalizing fd with
  | nil => exact ⟨0, by simp [getdentsEnd], by simp [getdentsRun], by simp [getdentsRun], by
      simp [getdentsRun]⟩
  | cons c cs ih =>
    obtain ⟨m, hend, hle, hiff, hshows⟩ := getdentsCommon_advance c ds fd
    obtain ⟨n, hend', hle', hiff', hshows'⟩ := ih (getdentsCommon ops c fd).fd
    have hrest : (ds.rest fd).drop m = ds.rest (getdentsCommon ops c fd).fd := by
      rw [DirStream.rest, DirStream.rest, hend, List.drop_drop]
    simp only [getdentsRun, getdentsEnd, List.flatMap_cons, List.length_append,
      List.forall_mem_cons]
    refine ⟨m + n, by rw [hend', hend, Nat.add_assoc], by omega, ?_, fun h => ?_⟩
    · rw [← hiff, ← hiff']
      omega
    · rw [List.take_add, hrest]
      exact List.rel_append (hshows h.1) (hshows' h.2)

lemma RunLists.keeps {ds : DirStream ops} {calls : List GetdentsCall}
    (h : RunLists ds fd calls) : ∀ s ∈ getdentsRun ops fd calls, s.call.Keeps ds s.fd := by
  obtain ⟨m, hend, -, hiff, -⟩ := getdentsRun_advance ds fd calls
  have hlen := h.delivered.length_eq
  have hle := ds.pos_le (getdentsEnd ops fd calls)
  rw [List.length_take, ds.length_rest, hend] at hlen
  exact hiff.mp (by omega)

end Run

/-- `proc_readdir` of a directory with a table of children: the offset is the index of the next
one. -/
def procReaddir (children : List DirEntry) (fd : DirFd Unit) :
    Except ℤ (Option DirEntry) × DirFd Unit :=
  match children[fd.offset]? with
  | none   => (.ok none, fd)
  | some e => (.ok (some e), { fd with offset := fd.offset + 1 })

/-- `procfs_fdops` has neither `telldir` nor `seekdir`. -/
def procDir (children : List DirEntry) : DirOps Unit := ⟨procReaddir children, none, none⟩

def procStream (children : List DirEntry) : DirStream (procDir children) where
  entries := children
  pos fd := min fd.offset children.length
  pos_le fd := min_le_right _ _
  next := by
    intro fd fd' e h
    simp only [procDir, procReaddir] at h
    split at h
    · cases h
    · next e' he =>
      obtain ⟨hlt, -⟩ := List.getElem?_eq_some_iff.mp he
      cases h
      exact ⟨by rw [min_eq_left hlt.le, he], by simp only; omega⟩
  finish := by
    intro fd fd' h
    simp only [procDir, procReaddir] at h
    split at h
    · next he =>
      exact min_eq_right (List.getElem?_eq_none_iff.mp he)
    · cases h
  failed := by
    intro fd fd' err h
    simp only [procDir, procReaddir] at h
    split at h <;> cases h
  seek _ _ := rfl

/-- One entry, named `a`. -/
def oneChild : List DirEntry := [⟨7, [97], by decide, by decide⟩]

def unmappedCall : GetdentsCall := ⟨.dirent64, 0x10000, 4096, by decide, fun _ _ => false⟩

end ShellBox
