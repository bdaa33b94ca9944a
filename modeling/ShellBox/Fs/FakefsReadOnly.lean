import ShellBox.Fs.BindRouting
import ShellBox.Fs.Fakefs

/-!
# Read-only bind mounts

The operations that write look for a read-only mount anywhere above the path, whether or not the
path is routed to it. The two rules agree except where a writable mount is inside a read-only
one. A hard link looks at its new name only, and a change through a descriptor at the path that
is recorded for descriptors opened for writing.
-/

namespace ShellBox

/-! ### The rule and the guard -/

/-- The mount with the longest matching path has `readOnly`. -/
def BindTable.ReadOnlyRouted (t : BindTable) (path : CString) : Prop :=
  ∃ norm i, bindMountNormalize path maxPath = some norm ∧ t.Nearest norm i ∧
    (t i).readOnly = true

def BindTable.ReadOnlyAbove (t : BindTable) (path : CString) : Prop :=
  ∃ norm i, bindMountNormalize path maxPath = some norm ∧ t.Above norm i ∧ (t i).readOnly = true

/-- The path is below a read-only mount, and routed to a mount that is not. -/
def BindTable.NestedWritable (t : BindTable) (path : CString) : Prop :=
  t.ReadOnlyAbove path ∧ ¬ t.ReadOnlyRouted path

section Guard

variable {t : BindTable} {path : CString}

lemma BindTable.ReadOnlyRouted.above (h : t.ReadOnlyRouted path) : t.ReadOnlyAbove path := by
  obtain ⟨norm, i, hnorm, hi, hro⟩ := h
  exact ⟨norm, i, hnorm, hi.1, hro⟩

lemma BindTable.Routed.matches_readOnly (ht : t.Routed) {names : List CString}
    (hn : ∀ c ∈ names, IsName c) {i : Fin fakefsMaxBindMounts} :
    t.Matches (absPath names) true i ↔ t.Above (absPath names) i ∧ (t i).readOnly = true := by
  have hfalse := ht.matches_iff hn (i := i)
  constructor
  · rintro ⟨ha, hr, hc⟩
    exact ⟨hfalse.1 ⟨ha, by simp, hc⟩, hr rfl⟩
  · rintro ⟨hab, hr⟩
    obtain ⟨ha, -, hc⟩ := hfalse.2 hab
    exact ⟨ha, fun _ => hr, hc⟩

/-- What the guard of the operations says. -/
theorem isUnderReadonlyBindMount_iff (ht : t.Routed) :
    isUnderReadonlyBindMount t path = true ↔ t.ReadOnlyAbove path := by
  unfold isUnderReadonlyBindMount BindTable.ReadOnlyAbove
  cases hnorm : bindMountNormalize path maxPath with
  | none => simp
  | some norm =>
    obtain ⟨rfl, hn, -⟩ := bindMountNormalize_spec (by decide) hnorm
    simp only [Option.some.injEq, exists_and_left, exists_eq_left', Option.isSome_iff_exists]
    constructor
    · rintro ⟨i, hi⟩
      exact ⟨i, (ht.matches_readOnly hn).1 (bindMountFind_some hi).1⟩
    · rintro ⟨i, hi⟩
      cases hf : bindMountFind t (absPath (resolvedNames path)) true with
      | none => exact absurd ((ht.matches_readOnly hn).2 hi) (bindMountFind_none hf i)
      | some j => exact ⟨j, rfl⟩

end Guard

/-! ### The operations -/

inductive MutOp
  | openFile (path : CString) (flags mode : ℕ) (hflags : writeIntent flags = true)
  | link (src dst : CString)
  | unlink (path : CString)
  | rmdir (path : CString)
  | rename (src dst : CString)
  | symlink (target link : CString)
  | mknod (path : CString) (mode dev : ℕ)
  | mkdir (path : CString) (mode : ℕ)
  | utime (path : CString) (atime mtime : ℤ) (followLinks : Bool)
  | setattr (path : CString) (attr : Attr) (followLinks : Bool)
  | fsetattr (fd : FakeFd) (attr : Attr)

def MutOp.paths : MutOp → List CString
  | .openFile path _ _ _ => [path]
  | .link src dst => [src, dst]
  | .unlink path => [path]
  | .rmdir path => [path]
  | .rename src dst => [src, dst]
  | .symlink _ name => [name]
  | .mknod path _ _ => [path]
  | .mkdir path _ => [path]
  | .utime path _ _ _ => [path]
  | .setattr path _ _ => [path]
  | .fsetattr fd _ => [fd.path]

def MutOp.guarded : MutOp → List CString
  | .link _ dst => [dst]
  | .fsetattr fd _ => fd.changePath.toList
  | op => op.paths

variable {H : Type*} (sys : HostCalls H) (cred : Cred) (fs : Fakefs H)

def mutCall : MutOp → Option FsErr × Fakefs H
  | .openFile path flags mode _ =>
    match fakefsOpen sys cred fs path flags mode with
    | (.ok _, fs) => (none, fs)
    | (.error e, fs) => (some e, fs)
  | .link src dst => fakefsLink sys fs src dst
  | .unlink path => fakefsUnlink sys fs path
  | .rmdir path => fakefsRmdir sys fs path
  | .rename src dst => fakefsRename sys fs src dst
  | .symlink target name => fakefsSymlink sys cred fs target name
  | .mknod path mode dev => fakefsMknod sys cred fs path mode dev
  | .mkdir path mode => fakefsMkdir sys cred fs path mode
  | .utime path atime mtime followLinks => fakefsUtime sys fs path atime mtime followLinks
  | .setattr path attr followLinks => fakefsSetattr sys fs path attr followLinks
  | .fsetattr fd attr => fakefsFsetattr sys fs fd attr

def mutStep (op : MutOp) : Fakefs H := (mutCall sys cred fs op).2

/-- An operation is refused with `EROFS`, and changes nothing, if and only if one of its paths is
routed to a read-only mount. -/
def MutOp.Protected (op : MutOp) : Prop :=
  ((∃ p ∈ op.paths, fs.mounts.ReadOnlyRouted p) → mutCall sys cred fs op = (some .erofs, fs)) ∧
    ((∀ p ∈ op.paths, ¬ fs.mounts.ReadOnlyRouted p) → (mutCall sys cred fs op).1 ≠ some .erofs)

def MutOp.Guarded (t : BindTable) : MutOp → Prop
  | .link src dst =>
    (t.ReadOnlyRouted src → t.ReadOnlyAbove dst) ∧ (t.NestedWritable dst → t.ReadOnlyRouted src)
  | .rename src dst =>
    (t.NestedWritable src → t.ReadOnlyRouted dst) ∧ (t.NestedWritable dst → t.ReadOnlyRouted src)
  | .fsetattr fd _ =>
    (t.ReadOnlyRouted fd.path → fd.changePath ≠ none) ∧
      (t.NestedWritable fd.path → fd.changePath = none)
  | op => ∀ p ∈ op.paths, ¬ t.NestedWritable p

/-! ### The refusals -/

lemma onHost_ne_erofs (r : Except ℤ H) : (fs.onHost r).1 ≠ some .erofs := by
  cases r <;> simp [Fakefs.onHost]

lemma setattrUntracked_ne_erofs (call : Attr → Except ℤ H) (attr : Attr) :
    (setattrUntracked fs call attr).1 ≠ some .erofs := by
  cases attr with
  | uid n => simp [setattrUntracked]
  | gid n => simp [setattrUntracked]
  | mode n => exact onHost_ne_erofs fs _
  | size n => exact onHost_ne_erofs fs _

section Refusals

variable {fs} {path src dst : CString}

lemma fakefsOpened_ne_erofs (flags mode no : ℕ) :
    (fakefsOpened sys cred fs path flags mode no).1 ≠ .error .erofs := by
  unfold fakefsOpened
  simp only []
  split_ifs <;> simp

lemma fakefsOpen_ne_erofs {flags mode : ℕ} (h : isUnderReadonlyBindMount fs.mounts path = false) :
    (fakefsOpen sys cred fs path flags mode).1 ≠ .error .erofs := by
  unfold fakefsOpen
  rw [if_neg (by simp [h])]
  cases sys.openFile fs.host (hostPathOf path (fs.route path)) flags with
  | error e => simp
  | ok r => exact fakefsOpened_ne_erofs sys cred _ _ _

lemma fakefsLink_ne_erofs (h : isUnderReadonlyBindMount fs.mounts dst = false) :
    (fakefsLink sys fs src dst).1 ≠ some .erofs := by
  unfold fakefsLink
  rw [if_neg (by simp [h])]
  simp only []
  split_ifs
  · simp
  · exact onHost_ne_erofs fs _
  · cases sys.link fs.host (.root src) (.root dst) with
    | error e => simp
    | ok host =>
      cases fs.db.pathLink src dst <;> simp

lemma fakefsRemove_ne_erofs {call : H → HostPath → Except ℤ H}
    (h : isUnderReadonlyBindMount fs.mounts path = false) :
    (fakefsRemove sys fs call path).1 ≠ some .erofs := by
  unfold fakefsRemove
  rw [if_neg (by simp [h])]
  simp only []
  split_ifs
  · exact onHost_ne_erofs fs _
  · cases call (bindMountEnsureInode sys fs path).2.host (hostPathOf path (fs.route path)) <;> simp
  · cases call fs.host (hostPathOf path (fs.route path)) <;> simp

lemma fakefsRename_ne_erofs (h : isUnderReadonlyBindMount fs.mounts src = false)
    (h' : isUnderReadonlyBindMount fs.mounts dst = false) :
    (fakefsRename sys fs src dst).1 ≠ some .erofs := by
  unfold fakefsRename
  rw [if_neg (by simp [h, h'])]
  simp only []
  split_ifs
  · simp
  · exact onHost_ne_erofs fs _
  · cases sys.rename fs.host (hostPathOf src (fs.route src)) (hostPathOf dst (fs.route dst)) <;>
      simp

lemma fakefsSymlink_ne_erofs {target : CString}
    (h : isUnderReadonlyBindMount fs.mounts path = false) :
    (fakefsSymlink sys cred fs target path).1 ≠ some .erofs := by
  unfold fakefsSymlink
  rw [if_neg (by simp [h])]
  split_ifs
  · simp
  · cases sys.create fs.host (.root path) with
    | error e => simp
    | ok host =>
      cases hw : sys.write host (.root path) target with
      | error e => cases hu : sys.unlink host (.root path) <;> simp [hw, hu]
      | ok host => simp [hw]

lemma fakefsMknod_ne_erofs {mode dev : ℕ} (h : isUnderReadonlyBindMount fs.mounts path = false) :
    (fakefsMknod sys cred fs path mode dev).1 ≠ some .erofs := by
  unfold fakefsMknod
  rw [if_neg (by simp [h])]
  simp only []
  split <;> split_ifs <;> simp

lemma fakefsMkdir_ne_erofs {mode : ℕ} (h : isUnderReadonlyBindMount fs.mounts path = false) :
    (fakefsMkdir sys cred fs path mode).1 ≠ some .erofs := by
  unfold fakefsMkdir
  rw [if_neg (by simp [h])]
  simp only []
  split_ifs
  · exact onHost_ne_erofs fs _
  · cases sys.mkdir fs.host (hostPathOf path (fs.route path)) <;> simp

lemma fakefsUtime_ne_erofs {atime mtime : ℤ} {followLinks : Bool}
    (h : isUnderReadonlyBindMount fs.mounts path = false) :
    (fakefsUtime sys fs path atime mtime followLinks).1 ≠ some .erofs := by
  unfold fakefsUtime
  rw [if_neg (by simp [h])]
  exact onHost_ne_erofs fs _

lemma fakefsSetattr_ne_erofs {attr : Attr} {followLinks : Bool}
    (h : isUnderReadonlyBindMount fs.mounts path = false) :
    (fakefsSetattr sys fs path attr followLinks).1 ≠ some .erofs := by
  unfold fakefsSetattr
  rw [if_neg (by simp [h])]
  simp only []
  split_ifs
  · exact setattrUntracked_ne_erofs fs _ _
  · split
    · exact onHost_ne_erofs fs _
    · split
      · simp
      · split <;> simp
  · split
    · exact onHost_ne_erofs fs _
    · split <;> simp

lemma fakefsFsetattr_ne_erofs {fd : FakeFd} {attr : Attr}
    (h : fd.changePath.any (isUnderReadonlyBindMount fs.mounts) = false) :
    (fakefsFsetattr sys fs fd attr).1 ≠ some .erofs := by
  unfold fakefsFsetattr
  rw [if_neg (by simp [h])]
  split
  · exact onHost_ne_erofs fs _
  · split
    · exact setattrUntracked_ne_erofs fs _ _
    · simp

end Refusals

def MutOp.Refused (t : BindTable) (op : MutOp) : Prop :=
  ∃ p ∈ op.guarded, isUnderReadonlyBindMount t p = true

variable {sys cred fs} in
lemma mutCall_of_refused {op : MutOp} (h : op.Refused fs.mounts) :
    mutCall sys cred fs op = (some .erofs, fs) := by
  obtain ⟨p, hp, h⟩ := h
  cases op with
  | openFile path flags mode hflags =>
    obtain rfl : p = path := by simpa [MutOp.guarded, MutOp.paths] using hp
    simp [mutCall, fakefsOpen, hflags, h]
  | link src dst =>
    obtain rfl : p = dst := by simpa [MutOp.guarded] using hp
    simp [mutCall, fakefsLink, h]
  | unlink path =>
    obtain rfl : p = path := by simpa [MutOp.guarded, MutOp.paths] using hp
    simp [mutCall, fakefsUnlink, fakefsRemove, h]
  | rmdir path =>
    obtain rfl : p = path := by simpa [MutOp.guarded, MutOp.paths] using hp
    simp [mutCall, fakefsRmdir, fakefsRemove, h]
  | rename src dst =>
    obtain rfl | rfl : p = src ∨ p = dst := by simpa [MutOp.guarded, MutOp.paths] using hp
    · simp [mutCall, fakefsRename, h]
    · simp [mutCall, fakefsRename, h]
  | symlink target name =>
    obtain rfl : p = name := by simpa [MutOp.guarded, MutOp.paths] using hp
    simp [mutCall, fakefsSymlink, h]
  | mknod path mode dev =>
    obtain rfl : p = path := by simpa [MutOp.guarded, MutOp.paths] using hp
    simp [mutCall, fakefsMknod, h]
  | mkdir path mode =>
    obtain rfl : p = path := by simpa [MutOp.guarded, MutOp.paths] using hp
    simp [mutCall, fakefsMkdir, h]
  | utime path atime mtime followLinks =>
    obtain rfl : p = path := by simpa [MutOp.guarded, MutOp.paths] using hp
    simp [mutCall, fakefsUtime, h]
  | setattr path attr followLinks =>
    obtain rfl : p = path := by simpa [MutOp.guarded, MutOp.paths] using hp
    simp [mutCall, fakefsSetattr, h]
  | fsetattr fd attr =>
    have hany : fd.changePath.any (isUnderReadonlyBindMount fs.mounts) = true := by
      have hp : fd.changePath = some p := by simpa [MutOp.guarded] using hp
      simp [hp, h]
    simp [mutCall, fakefsFsetattr, hany]

variable {sys cred fs} in
lemma mutCall_of_not_refused {op : MutOp} (h : ¬ op.Refused fs.mounts) :
    (mutCall sys cred fs op).1 ≠ some .erofs := by
  have hp : ∀ p ∈ op.guarded, isUnderReadonlyBindMount fs.mounts p = false := by
    intro p hp
    by_contra hne
    exact h ⟨p, hp, by simpa using hne⟩
  cases op with
  | openFile path flags mode hflags =>
    have hopen : (fakefsOpen sys cred fs path flags mode).1 ≠ .error .erofs :=
      fakefsOpen_ne_erofs sys cred (hp path (by simp [MutOp.guarded, MutOp.paths]))
    rcases hr : fakefsOpen sys cred fs path flags mode with ⟨r, fs'⟩
    rw [hr] at hopen
    cases r with
    | ok fd => simp [mutCall, hr]
    | error e => simpa [mutCall, hr] using hopen
  | link src dst => exact fakefsLink_ne_erofs sys (hp dst (by simp [MutOp.guarded]))
  | unlink path =>
    exact fakefsRemove_ne_erofs sys (hp path (by simp [MutOp.guarded, MutOp.paths]))
  | rmdir path =>
    exact fakefsRemove_ne_erofs sys (hp path (by simp [MutOp.guarded, MutOp.paths]))
  | rename src dst =>
    exact fakefsRename_ne_erofs sys (hp src (by simp [MutOp.guarded, MutOp.paths]))
      (hp dst (by simp [MutOp.guarded, MutOp.paths]))
  | symlink target name =>
    exact fakefsSymlink_ne_erofs sys cred (hp name (by simp [MutOp.guarded, MutOp.paths]))
  | mknod path mode dev =>
    exact fakefsMknod_ne_erofs sys cred (hp path (by simp [MutOp.guarded, MutOp.paths]))
  | mkdir path mode =>
    exact fakefsMkdir_ne_erofs sys cred (hp path (by simp [MutOp.guarded, MutOp.paths]))
  | utime path atime mtime followLinks =>
    exact fakefsUtime_ne_erofs sys (hp path (by simp [MutOp.guarded, MutOp.paths]))
  | setattr path attr followLinks =>
    exact fakefsSetattr_ne_erofs sys (hp path (by simp [MutOp.guarded, MutOp.paths]))
  | fsetattr fd attr =>
    refine fakefsFsetattr_ne_erofs sys ?_
    cases hc : fd.changePath with
    | none => rfl
    | some p => simpa using hp p (by simp [MutOp.guarded, hc])

lemma protected_iff_refused {op : MutOp} : op.Protected sys cred fs ↔
    ((∃ p ∈ op.paths, fs.mounts.ReadOnlyRouted p) ↔ op.Refused fs.mounts) := by
  constructor
  · rintro ⟨hro, hrw⟩
    constructor
    · intro h
      by_contra hnot
      exact mutCall_of_not_refused hnot (by rw [hro h])
    · intro h
      by_contra hnot
      push Not at hnot
      exact hrw hnot (by rw [mutCall_of_refused h])
  · intro h
    constructor
    · intro hp
      exact mutCall_of_refused (h.1 hp)
    · intro hp
      refine mutCall_of_not_refused fun hr => ?_
      obtain ⟨p, hmem, hro⟩ := h.2 hr
      exact hp p hmem hro

lemma routed_iff_above {t : BindTable} {p : CString} :
    (t.ReadOnlyRouted p ↔ t.ReadOnlyAbove p) ↔ ¬ t.NestedWritable p := by
  constructor
  · rintro h ⟨habove, hnot⟩
    exact hnot (h.2 habove)
  · intro h
    refine ⟨BindTable.ReadOnlyRouted.above, fun habove => ?_⟩
    by_contra hnot
    exact h ⟨habove, hnot⟩

lemma guarded_iff {t : BindTable} (ht : t.Routed) {op : MutOp} :
    ((∃ p ∈ op.paths, t.ReadOnlyRouted p) ↔ op.Refused t) ↔ op.Guarded t := by
  have hone : ∀ p, ((∃ q ∈ [p], t.ReadOnlyRouted q) ↔
      ∃ q ∈ [p], isUnderReadonlyBindMount t q = true) ↔ ∀ q ∈ [p], ¬ t.NestedWritable q := by
    intro p
    simp only [List.mem_singleton, exists_eq_left, forall_eq, isUnderReadonlyBindMount_iff ht]
    exact routed_iff_above
  cases op with
  | link src dst =>
    simp only [MutOp.Refused, MutOp.guarded, MutOp.paths, MutOp.Guarded, BindTable.NestedWritable,
      List.mem_cons, List.not_mem_nil, or_false, exists_eq_or_imp, exists_eq_left,
      isUnderReadonlyBindMount_iff ht]
    have hdst : t.ReadOnlyRouted dst → t.ReadOnlyAbove dst := BindTable.ReadOnlyRouted.above
    tauto
  | rename src dst =>
    simp only [MutOp.Refused, MutOp.guarded, MutOp.paths, MutOp.Guarded, BindTable.NestedWritable,
      List.mem_cons, List.not_mem_nil, or_false, exists_eq_or_imp, exists_eq_left,
      isUnderReadonlyBindMount_iff ht]
    have hsrc : t.ReadOnlyRouted src → t.ReadOnlyAbove src := BindTable.ReadOnlyRouted.above
    have hdst : t.ReadOnlyRouted dst → t.ReadOnlyAbove dst := BindTable.ReadOnlyRouted.above
    tauto
  | fsetattr fd attr =>
    simp only [MutOp.Refused, MutOp.guarded, MutOp.paths, MutOp.Guarded, BindTable.NestedWritable,
      List.mem_singleton, exists_eq_left, isUnderReadonlyBindMount_iff ht, Option.mem_toList]
    have hpath : t.ReadOnlyRouted fd.path → t.ReadOnlyAbove fd.path :=
      BindTable.ReadOnlyRouted.above
    rcases fd.opened with h | h
    · simp [h]
    · simp only [h, Option.some.injEq, exists_eq_left', reduceCtorEq, ne_eq, not_false_eq_true]
      tauto
  | openFile path flags mode hflags => exact hone path
  | unlink path => exact hone path
  | rmdir path => exact hone path
  | symlink target name => exact hone name
  | mknod path mode dev => exact hone path
  | mkdir path mode => exact hone path
  | utime path atime mtime followLinks => exact hone path
  | setattr path attr followLinks => exact hone path

/-! ### The table stays as it is -/

section Mounts

variable {fs}

@[simp] lemma onHost_mounts (r : Except ℤ H) : (fs.onHost r).2.mounts = fs.mounts := by
  cases r <;> rfl

@[simp] lemma setattrUntracked_mounts (call : Attr → Except ℤ H) (attr : Attr) :
    (setattrUntracked fs call attr).2.mounts = fs.mounts := by
  cases attr <;> simp [setattrUntracked]

@[simp] lemma inodeCheckOrphaned_mounts (inode : ℕ) :
    (fs.inodeCheckOrphaned inode).mounts = fs.mounts := by
  unfold Fakefs.inodeCheckOrphaned
  split_ifs <;> rfl

@[simp] lemma bindMountEnsureInode_mounts (path : CString) :
    (bindMountEnsureInode sys fs path).2.mounts = fs.mounts := by
  unfold bindMountEnsureInode
  simp only []
  split_ifs
  · rfl
  · split <;> rfl

@[simp] lemma fakefsOpened_mounts (path : CString) (flags mode no : ℕ) :
    (fakefsOpened sys cred fs path flags mode no).2.mounts = fs.mounts := by
  unfold fakefsOpened
  simp only []
  split_ifs <;> simp

@[simp] lemma fakefsOpen_mounts (path : CString) (flags mode : ℕ) :
    (fakefsOpen sys cred fs path flags mode).2.mounts = fs.mounts := by
  unfold fakefsOpen
  split_ifs
  · rfl
  · cases sys.openFile fs.host (hostPathOf path (fs.route path)) flags with
    | error e => rfl
    | ok r => exact fakefsOpened_mounts sys cred _ _ _ _

@[simp] lemma fakefsRemove_mounts (call : H → HostPath → Except ℤ H) (path : CString) :
    (fakefsRemove sys fs call path).2.mounts = fs.mounts := by
  unfold fakefsRemove
  simp only []
  split_ifs
  · rfl
  · simp
  · split <;> simp
  · split <;> simp

end Mounts

lemma mounts_mutStep (op : MutOp) : (mutStep sys cred fs op).mounts = fs.mounts := by
  unfold mutStep
  cases op with
  | openFile path flags mode hflags =>
    have hopen : (fakefsOpen sys cred fs path flags mode).2.mounts = fs.mounts :=
      fakefsOpen_mounts sys cred path flags mode
    rcases hr : fakefsOpen sys cred fs path flags mode with ⟨r, fs'⟩
    rw [hr] at hopen
    cases r <;> simpa [mutCall, hr] using hopen
  | link src dst =>
    simp only [mutCall, fakefsLink]
    split_ifs
    · rfl
    · rfl
    · simp
    · split
      · rfl
      · split <;> rfl
  | unlink path => exact fakefsRemove_mounts sys sys.unlink path
  | rmdir path => exact fakefsRemove_mounts sys sys.rmdir path
  | rename src dst =>
    simp only [mutCall, fakefsRename]
    split_ifs
    · rfl
    · rfl
    · simp
    · split <;> rfl
  | symlink target name =>
    simp only [mutCall, fakefsSymlink]
    split_ifs
    · rfl
    · rfl
    · split
      · rfl
      · split
        · split <;> rfl
        · rfl
  | mknod path mode dev =>
    simp only [mutCall, fakefsMknod]
    split_ifs <;> first | rfl | (split <;> (try split_ifs) <;> rfl)
  | mkdir path mode =>
    simp only [mutCall, fakefsMkdir]
    split_ifs
    · rfl
    · simp
    · split <;> rfl
  | utime path atime mtime followLinks =>
    simp only [mutCall, fakefsUtime]
    split_ifs
    · rfl
    · simp
  | setattr path attr followLinks =>
    simp only [mutCall, fakefsSetattr]
    split_ifs
    · rfl
    · simp
    · split
      · simp
      · split
        · rfl
        · split <;> simp
    · split
      · simp
      · split <;> rfl
  | fsetattr fd attr =>
    simp only [mutCall, fakefsFsetattr]
    split_ifs
    · rfl
    · split
      · simp
      · split
        · simp
        · rfl

/-- Read-only mounts are protected, and no others are, exactly where the guard agrees with the
routing. -/
theorem readOnly_mounts_protected {db : MetaDb} {calls : List BindCall}
    (hcalls : RunAll bindStep (fun b c => c.Succeeds b) (Binds.start db) calls) (ops : List MutOp) :
    let t := (run bindStep (Binds.start db) calls).mounts
    RunAll (mutStep sys cred) (fun fs op => op.Protected sys cred fs) { fs with mounts := t } ops ↔
      ∀ op ∈ ops, op.Guarded t := by
  intro t
  have ht : t.Routed := routed_run routed_unused hcalls
  clear_value t
  have hone : ∀ (fs : Fakefs H) (op : MutOp), fs.mounts = t →
      (op.Protected sys cred fs ↔ op.Guarded t) := by
    rintro fs op rfl
    rw [protected_iff_refused, guarded_iff ht]
  generalize hfs : ({ fs with mounts := t } : Fakefs H) = start
  have hstart : start.mounts = t := by rw [← hfs]
  clear hfs
  induction ops generalizing start with
  | nil => simp [RunAll]
  | cons op ops ih =>
    have hrest := ih (mutStep sys cred start op) ((mounts_mutStep sys cred start op).trans hstart)
    rw [RunAll, hone start op hstart, List.forall_mem_cons]
    exact and_congr Iff.rfl hrest

def HostCalls.refusing : HostCalls Unit where
  mkdir _ _ := .error (-13)
  unlink _ _ := .error (-13)
  rmdir _ _ := .error (-13)
  link _ _ _ := .error (-13)
  rename _ _ _ := .error (-13)
  mkfifo _ _ := .error (-13)
  create _ _ := .error (-13)
  write _ _ _ := .error (-13)
  close _ := .ok ()
  openFile _ _ _ := .error (-13)
  fstatIno _ _ := none
  lstat _ _ := none
  stat _ _ := none
  setattr _ _ _ _ := .error (-13)
  fsetattr _ _ _ := .error (-13)
  utime _ _ _ _ _ := .error (-13)

section Example

/-- `/m` read-only. -/
def readOnlyM : BindCall := .mount .willing ['/', 'm'] ['/', 'h'] true

/-- `/m/n` inside it, writable. -/
def writableN : BindCall := .mount .willing ['/', 'm', '/', 'n'] ['/', 'k'] false

def emptyDb : MetaDb := ⟨.empty, .empty⟩

theorem readOnly_mounts_protected_unlink :
    let fs : Fakefs Unit := ⟨(run bindStep (Binds.start emptyDb) [readOnlyM]).mounts, none, emptyDb,
      (), fun _ => false⟩
    let ops : List MutOp := [.unlink ['/', 'm', '/', 'f']]
    RunAll (mutStep .refusing ⟨0, 0⟩) (fun fs op => op.Protected .refusing ⟨0, 0⟩ fs) fs ops ↔
      ∀ op ∈ ops, op.Guarded fs.mounts := by
  intro fs ops
  have hcalls : RunAll bindStep (fun b c => c.Succeeds b) (Binds.start emptyDb) [readOnlyM] :=
    ⟨rfl, trivial⟩
  exact readOnly_mounts_protected .refusing ⟨0, 0⟩ fs hcalls ops

/-- A directory of the writable mount cannot be made. -/
theorem nested_writable_refused : ¬ ∀ (db : MetaDb) (calls : List BindCall) (sys : HostCalls Unit)
    (cred : Cred) (fs : Fakefs Unit) (ops : List MutOp),
    RunAll bindStep (fun b c => c.Succeeds b) (Binds.start db) calls →
    fs.mounts = (run bindStep (Binds.start db) calls).mounts →
    RunAll (mutStep sys cred) (fun fs op => op.Protected sys cred fs) fs ops := by
  intro h
  let path : CString := ['/', 'm', '/', 'n', '/', 'd']
  let t := (run bindStep (Binds.start emptyDb) [readOnlyM, writableN]).mounts
  have hcalls : RunAll bindStep (fun b c => c.Succeeds b) (Binds.start emptyDb)
      [readOnlyM, writableN] := ⟨rfl, rfl, trivial⟩
  have ht : t.Routed := routed_run routed_unused hcalls
  have hprot := (h emptyDb [readOnlyM, writableN] .refusing ⟨0, 0⟩
    ⟨t, none, emptyDb, (), fun _ => false⟩ [.mkdir path 0o755] hcalls rfl).1
  have hroute : bindMountFind t path false = some ⟨1, by decide⟩ := rfl
  refine hprot.2 ?_ rfl
  intro p hp
  obtain rfl : p = path := by simpa [MutOp.paths] using hp
  rintro ⟨norm, i, hnorm, hnear, hro⟩
  obtain rfl : path = norm := Option.some.inj hnorm
  obtain ⟨heq, hn, -⟩ := bindMountNormalize_spec (by decide) hnorm
  rw [heq] at hnear
  have hfind := (bindMountFind_iff_nearest ht hn i).2 hnear
  rw [← heq, hroute] at hfind
  obtain rfl := Option.some.inj hfind
  cases hro

end Example

end ShellBox
