import ShellBox.Fs.FdLifetime

/-!
# When descriptions are closed

No operation but `fd_create` makes a description, and one that has been there before an operation
and is gone after it has been closed.
-/

namespace ShellBox

open Function

namespace FdWorld

variable {w w' : FdWorld} {t : TaskId} {tb : TableId} {T : FdTable} {fd : FdId}

structure Closes (w w' : FdWorld) : Prop where
  gone : ∀ fd, w.refcount fd = none → w'.refcount fd = none
  closed : ∀ fd, fd ∈ w'.closed ↔ fd ∈ w.closed ∨ w.refcount fd ≠ none ∧ w'.refcount fd = none

lemma closes_of_eq (hcount : w'.refcount = w.refcount) (hclosed : w'.closed = w.closed) :
    w.Closes w' := by
  refine ⟨fun fd h => by rwa [hcount], fun fd => ?_⟩
  rw [hcount, hclosed]
  simp

lemma Closes.rfl : w.Closes w := closes_of_eq (Eq.refl _) (Eq.refl _)

lemma Closes.trans {w₁ w₂ : FdWorld} (h : w.Closes w₁) (h' : w₁.Closes w₂) : w.Closes w₂ := by
  refine ⟨fun fd hfd => h'.gone fd (h.gone fd hfd), fun fd => ?_⟩
  rw [h'.closed, h.closed]
  have hgone := h.gone fd
  have hgone' := h'.gone fd
  tauto

lemma Closes.congr {w₁ : FdWorld} (h : w.Closes w₁) (hcount : w'.refcount = w₁.refcount)
    (hclosed : w'.closed = w₁.closed) : w.Closes w' :=
  h.trans (closes_of_eq hcount hclosed)

lemma Closes.of_eq {w₁ : FdWorld} (h : w₁.Closes w') (hcount : w₁.refcount = w.refcount)
    (hclosed : w₁.closed = w.closed) : w.Closes w' :=
  (closes_of_eq hcount hclosed).trans h

lemma closes_foldl {α : Type*} {f : FdWorld → α → FdWorld} (hf : ∀ w a, Closes w (f w a))
    (w : FdWorld) (l : List α) : w.Closes (l.foldl f w) :=
  List.foldlRecOn (motive := fun w' => w.Closes w') l f Closes.rfl fun w' hw a _ =>
    hw.trans (hf w' a)

lemma closes_fdClose (w : FdWorld) (fd : FdId) : w.Closes (w.fdClose fd) := by
  unfold fdClose
  split
  · rename_i hone
    refine ⟨fun fd' h => ?_, fun fd' => ?_⟩
    · by_cases hfd : fd' = fd
      · simp [hfd]
      · simpa [hfd] using h
    · by_cases hfd : fd' = fd
      · simp [hfd, hone]
      · simp [hfd]
  · rename_i n hone hn
    refine ⟨fun fd' h => ?_, fun fd' => ?_⟩
    · by_cases hfd : fd' = fd
      · rw [hfd, hn] at h
        cases h
      · simpa [hfd] using h
    · by_cases hfd : fd' = fd
      · simp [hfd]
      · simp [hfd]
  · exact Closes.rfl

lemma closes_fdRetain (w : FdWorld) (fd : FdId) : w.Closes (w.fdRetain fd) := by
  have hcount : ∀ fd', (w.fdRetain fd).refcount fd' = none ↔ w.refcount fd' = none := by
    intro fd'
    by_cases hfd : fd' = fd
    · simp [fdRetain, hfd]
    · simp [fdRetain, hfd]
  refine ⟨fun fd' h => (hcount fd').2 h, fun fd' => ?_⟩
  rw [hcount]
  simp [fdRetain]

lemma closes_fdtableClose (w : FdWorld) (tb : TableId) (f : ℤ) :
    w.Closes (fdtableClose tb w f) := by
  unfold fdtableClose
  split
  · exact Closes.rfl
  · split
    · exact Closes.rfl
    · exact (closes_fdClose w _).congr rfl rfl

lemma closes_fdtableRelease (w : FdWorld) (tb : TableId) : w.Closes (w.fdtableRelease tb) := by
  unfold fdtableRelease
  split
  · exact Closes.rfl
  · rename_i T _
    have hset : w.Closes (w.setTable tb { T with refcount := T.refcount - 1 }) :=
      closes_of_eq rfl rfl
    have hloop := closes_foldl (fun w (f : ℕ) => closes_fdtableClose w tb f)
    simp only []
    split_ifs
    · exact (hset.trans (hloop _ (List.range T.files.length))).congr rfl rfl
    · exact closes_of_eq rfl rfl

lemma closes_syscallRefsRelease (w : FdWorld) (t : TaskId) :
    w.Closes (w.syscallRefsRelease t) :=
  (closes_foldl closes_fdClose { w with refs := update w.refs t [] } (w.refs t)).of_eq rfl rfl

lemma closes_fGet (w : FdWorld) (t : TaskId) (f : ℤ) (oom : Bool) :
    w.Closes (w.fGet t f oom).1 := by
  unfold fGet
  split
  · exact Closes.rfl
  · split_ifs
    · exact Closes.rfl
    · exact Closes.rfl
    · exact (closes_fdRetain w _).congr rfl rfl

lemma closes_fInstallStart (w : FdWorld) (tb : TableId) (T : FdTable) (fd : FdId)
    (start rlimit : ℕ) (oom : Bool) : w.Closes (w.fInstallStart tb T fd start rlimit oom).1 := by
  unfold fInstallStart
  simp only []
  split_ifs
  · exact closes_of_eq rfl rfl
  · exact (closes_fdClose (w.setTable tb _) fd).of_eq rfl rfl

lemma closes_fInstall (w : FdWorld) (tb : TableId) (T : FdTable) (fd : FdId) (flags rlimit : ℕ)
    (oom : Bool) : w.Closes (w.fInstall tb T fd flags rlimit oom) := by
  have hstart := closes_fInstallStart w tb T fd 0 rlimit oom
  obtain heq | ⟨T₁, bit, f, -, heq⟩ := fInstall_eq w tb T fd flags rlimit oom
  · rwa [heq]
  · rw [heq]
    exact hstart.congr rfl rfl

lemma closes_sysDup3 (w : FdWorld) (t : TaskId) (tb : TableId) (T : FdTable) (fd : FdId)
    (newF : ℤ) (flags rlimit : ℕ) (oom : Bool) :
    w.Closes (w.sysDup3 t tb T fd newF flags rlimit oom) := by
  unfold sysDup3
  split
  · exact Closes.rfl
  · rename_i T' _
    have hretain : w.Closes ((w.setTable tb T').fdRetain fd) :=
      (closes_fdRetain (w.setTable tb T') fd).of_eq rfl rfl
    exact hretain.trans ((closes_fdtableClose _ tb newF).of_eq rfl rfl)

lemma closes_sysFcntlDupfd (w : FdWorld) (t : TaskId) (tb : TableId) (T : FdTable) (fd : FdId)
    (arg rlimit : ℕ) (cloexec oom : Bool) :
    w.Closes (w.sysFcntlDupfd t tb T fd arg rlimit cloexec oom) := by
  have hretain : w.Closes ((w.setTable tb (T.installSlot arg rlimit oom).1).fdRetain fd) :=
    (closes_fdRetain (w.setTable tb _) fd).of_eq rfl rfl
  unfold sysFcntlDupfd
  simp only []
  split_ifs
  · exact hretain.congr rfl rfl
  · exact hretain.trans (closes_fdClose _ fd)

lemma closes_fdtableDoCloexec (w : FdWorld) (tb : TableId) (T : FdTable) :
    w.Closes (w.fdtableDoCloexec tb T) := by
  refine closes_foldl (fun w f => ?_) w _
  split_ifs
  · exact closes_fdtableClose w tb f
  · exact Closes.rfl

lemma closes_closeRangeSlot (w : FdWorld) (tb : TableId) (flags : ℕ) (f : ℤ) :
    w.Closes (closeRangeSlot tb flags w f) := by
  unfold closeRangeSlot
  split
  · exact Closes.rfl
  · split_ifs
    · exact Closes.rfl
    · exact closes_of_eq rfl rfl
    · exact closes_fdtableClose w tb f

lemma closes_sysCloseRange (w : FdWorld) (tb : TableId) (T : FdTable) (first last flags : ℕ) :
    w.Closes (w.sysCloseRange tb T first last flags) := by
  unfold sysCloseRange
  simp only []
  split_ifs
  · exact Closes.rfl
  · exact closes_foldl (fun w i => closes_closeRangeSlot w tb flags _) w _
  · exact closes_foldl (fun w i => closes_closeRangeSlot w tb flags _) w _

lemma closes_retainAll (w : FdWorld) (files : List (Option FdId)) :
    w.Closes (w.retainAll files) := by
  refine closes_foldl (fun w fd => ?_) w files
  cases fd with
  | some fd => exact closes_fdRetain w fd
  | none => exact Closes.rfl

lemma closes_copyFiles (w : FdWorld) (child : TaskId) (tb : TableId) (T : FdTable) (new : TableId)
    (share oom : Bool) : w.Closes (w.copyFiles child tb T new share oom) := by
  unfold copyFiles
  split_ifs
  · exact closes_of_eq rfl rfl
  · exact Closes.rfl
  · have hcopy : w.Closes (w.fdtableCopy T new) :=
      (closes_retainAll (w.setTable new ⟨1, T.files, T.cloexec⟩) T.files).of_eq rfl rfl
    exact hcopy.congr rfl rfl

lemma closes_doExit (w : FdWorld) (t : TaskId) (tb : TableId) : w.Closes (w.doExit t tb) :=
  ((closes_syscallRefsRelease w t).trans (closes_fdtableRelease _ tb)).congr rfl rfl

end FdWorld

open FdWorld in
lemma closes_fdStep (w : FdWorld) {op : FdOp} (hop : ∀ h fd, op ≠ .create h fd) :
    w.Closes (fdStep w op) := by
  cases op with
  | create h fd => exact absurd rfl (hop h fd)
  | retain h fd =>
    simp only [fdStep]
    split_ifs
    · exact (closes_fdRetain w fd).congr rfl rfl
    · exact Closes.rfl
  | drop h =>
    simp only [fdStep]
    split
    · exact (closes_fdClose w _).congr rfl rfl
    · exact Closes.rfl
  | get t f oom => exact onTable_rule Closes.rfl t fun _ _ _ _ _ => closes_fGet w t f oom
  | install t h flags rlimit oom =>
    refine onTable_rule Closes.rfl t fun tb T _ _ _ => ?_
    split
    · exact (closes_fInstall { w with held := update w.held h none } tb T _ flags rlimit oom).of_eq
        rfl rfl
    · exact Closes.rfl
  | dup t fd rlimit oom =>
    refine onTable_rule Closes.rfl t fun tb T _ _ _ => ?_
    split_ifs
    · exact (closes_fdRetain w fd).trans (closes_fInstall _ tb T fd 0 rlimit oom)
    · exact Closes.rfl
  | dup3 t fd newF flags rlimit oom =>
    refine onTable_rule Closes.rfl t fun tb T _ _ _ => ?_
    split_ifs
    · exact closes_sysDup3 w t tb T fd newF flags rlimit oom
    · exact Closes.rfl
  | fcntlDupfd t fd arg rlimit cloexec oom =>
    refine onTable_rule Closes.rfl t fun tb T _ _ _ => ?_
    split_ifs
    · exact closes_sysFcntlDupfd w t tb T fd arg rlimit cloexec oom
    · exact Closes.rfl
  | store t =>
    simp only [fdStep]
    split
    · exact closes_of_eq rfl rfl
    · exact Closes.rfl
  | fcntlSetfd t f bit =>
    refine onTable_rule Closes.rfl t fun tb T _ _ _ => ?_
    split_ifs
    · exact closes_of_eq rfl rfl
    · exact Closes.rfl
  | close t f => exact onTable_rule Closes.rfl t fun tb _ _ _ _ => closes_fdtableClose w tb f
  | closeRange t first last flags =>
    exact onTable_rule Closes.rfl t fun tb T _ _ _ => closes_sysCloseRange w tb T first last flags
  | exec t => exact onTable_rule Closes.rfl t fun tb T _ _ _ => closes_fdtableDoCloexec w tb T
  | ret t => exact onTable_rule Closes.rfl t fun _ _ _ _ _ => closes_syscallRefsRelease w t
  | clone t child new share oom =>
    refine onTable_rule Closes.rfl t fun tb T _ _ _ => ?_
    split_ifs
    · exact closes_copyFiles w child tb T new share oom
    · exact Closes.rfl
  | exit t => exact onTable_rule Closes.rfl t fun tb _ _ _ _ => closes_doExit w t tb
  | readTable r t =>
    simp only [fdStep]
    split
    · exact closes_of_eq rfl rfl
    · exact Closes.rfl
  | putTable r =>
    simp only [fdStep]
    split
    · exact (closes_fdtableRelease w _).congr rfl rfl
    · exact Closes.rfl

end ShellBox
