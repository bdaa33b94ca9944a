import ShellBox.Fs.Open
import ShellBox.Fs.PathSearch

/-!
# Changing a directory

The operations that change the entries of a directory ask the path resolution for a check of the
directory with `N_PARENT_DIR_WRITE`. The resolution does not look at the flag. What it checks is
search permission, where a name has a slash behind it, and not at all when it answers from the
cache. There is one mount, a fake filesystem at the root of the machine.
-/

namespace ShellBox

structure AtPath (tree : FileTree) where
  dir : Directory tree
  path : CString

inductive DirOp (tree : FileTree)
  | create (file : AtPath tree) (flags mode : ℕ)
  | mkdir (file : AtPath tree) (mode : ℕ)
  | mknod (file : AtPath tree) (mode dev : ℕ)
  | symlink (target : CString) (link : AtPath tree)
  | link (src dst : AtPath tree)
  | unlink (file : AtPath tree)
  | rmdir (file : AtPath tree)
  | rename (src dst : AtPath tree)

inductive OpErr
  | path (e : PathErr)
  | fs (e : FsErr)
  | opened (e : OpenErr)
  | einval | eperm | ebusy
  /-- The path resolution wrote past its buffer. -/
  | overflow
  deriving DecidableEq

def OpErr.ofOpen : OpenErr → OpErr
  | .path e => .path e
  | e => .opened e

variable {H : Type*}

def PathResult.andThen (r : PathResult) (fs : Fakefs H)
    (f : CString → Option OpErr × Fakefs H) : Option OpErr × Fakefs H :=
  match r with
  | .ok path => f path
  | .err e => (some (.path e), fs)
  | _ => (some .overflow, fs)

def ofFs (r : Option FsErr × Fakefs H) : Option OpErr × Fakefs H := (r.1.map .fs, r.2)

/-- `contains_mount_point`, with the mount at the root. -/
def containsMountPoint (path : CString) : Bool := path = []

namespace OpenEnv

variable (e : OpenEnv H) (fs : Fakefs H)

/-- The call of `path_normalize`; `write` is `N_PARENT_DIR_WRITE`. -/
def callAt (file : AtPath e.tree) (follow write : Bool) : PathCall e.tree where
  root := e.root
  dir := file.dir
  path := file.path
  flags := ⟨follow, write⟩
  cred := e.cred.toPathCred
  now := e.now
  later := e.later

def resolveAt (cache : PathCache e.tree) (file : AtPath e.tree) (follow write : Bool) :
    PathCache e.tree × PathResult :=
  cache.pathNormalize (e.callAt file follow write)

def genericMkdirat (file : AtPath e.tree) (mode : ℕ) : Option OpErr × Fakefs H :=
  (e.resolveAt e.cache file true true).2.andThen fs fun path =>
    ofFs (fakefsMkdir e.sys e.fileCred fs path mode)

/-- The checks of `generic_mknodat` before the path is looked at. -/
def mknodRefusal (mode : ℕ) : Option OpErr :=
  let type := mode &&& sIfmt
  if type = sIfdir ∨ type = sIflnk then some .einval
  else if ¬ e.cred.superuser ∧ (type = sIfblk ∨ type = sIfchr) then some .eperm
  else none

def genericMknodat (file : AtPath e.tree) (mode dev : ℕ) : Option OpErr × Fakefs H :=
  match e.mknodRefusal mode with
  | some err => (some err, fs)
  | none =>
    (e.resolveAt e.cache file false true).2.andThen fs fun path =>
      ofFs (fakefsMknod e.sys e.fileCred fs path mode dev)

def genericSymlinkat (target : CString) (link : AtPath e.tree) : Option OpErr × Fakefs H :=
  (e.resolveAt e.cache link false true).2.andThen fs fun path =>
    ofFs (fakefsSymlink e.sys e.fileCred fs target path)

def genericLinkat (src dst : AtPath e.tree) : Option OpErr × Fakefs H :=
  let r := e.resolveAt e.cache src false false
  r.2.andThen fs fun srcPath =>
    (e.resolveAt r.1 dst false true).2.andThen fs fun dstPath =>
      ofFs (fakefsLink e.sys fs srcPath dstPath)

def genericUnlinkat (file : AtPath e.tree) : Option OpErr × Fakefs H :=
  (e.resolveAt e.cache file false true).2.andThen fs fun path => ofFs (fakefsUnlink e.sys fs path)

def genericRmdirat (file : AtPath e.tree) : Option OpErr × Fakefs H :=
  (e.resolveAt e.cache file true true).2.andThen fs fun path =>
    if containsMountPoint path then (some .ebusy, fs) else ofFs (fakefsRmdir e.sys fs path)

def genericRenameat (src dst : AtPath e.tree) : Option OpErr × Fakefs H :=
  let r := e.resolveAt e.cache src false true
  r.2.andThen fs fun srcPath =>
    (e.resolveAt r.1 dst false true).2.andThen fs fun dstPath =>
      if containsMountPoint srcPath then (some .ebusy, fs)
      else ofFs (fakefsRename e.sys fs srcPath dstPath)

def openAt (file : AtPath e.tree) : OpenEnv H := { e with dir := file.dir }

/-- `generic_openat` with `O_CREAT`. -/
def createAt (file : AtPath e.tree) (flags mode : ℕ) : Option OpErr × Fakefs H :=
  let r := (e.openAt file).genericOpenat fs file.path (flags ||| oCreat) mode
  (match r.1 with
    | .ok _ => none
    | .error err => some (.ofOpen err), r.2)

def runOp : DirOp e.tree → Option OpErr × Fakefs H
  | .create file flags mode => e.createAt fs file flags mode
  | .mkdir file mode => e.genericMkdirat fs file mode
  | .mknod file mode dev => e.genericMknodat fs file mode dev
  | .symlink target link => e.genericSymlinkat fs target link
  | .link src dst => e.genericLinkat fs src dst
  | .unlink file => e.genericUnlinkat fs file
  | .rmdir file => e.genericRmdirat fs file
  | .rename src dst => e.genericRenameat fs src dst

/-! ### What permission there should be -/

def SearchDenied (d : CString) : Prop :=
  ∃ st, e.tree.stat d = some st ∧ st.isDir = true ∧ ¬ e.cred.Permits st acX

def WriteDenied (d : CString) : Prop := ∃ st, e.tree.stat d = some st ∧ ¬ e.cred.Permits st acW

def SearchRefused (d : CString) : Prop :=
  ∃ st, e.tree.stat d = some st ∧ accessCheck e.cred.toPathCred st acX = false

abbrev Resolution := PathCache e.tree × PathCall e.tree

variable {e} in
def Resolution.lookups (x : e.Resolution) : List CString :=
  x.2.env.lookups (some x.2.start.path) x.2.path

variable {e} in
def Resolution.checks (x : e.Resolution) : List CString :=
  if (x.1.get x.2).2.isSome then [] else x.2.env.checks (some x.2.start.path) x.2.path

def twoResolutions (src dst : AtPath e.tree) (write : Bool) : List e.Resolution :=
  let r := e.resolveAt e.cache src false write
  (e.cache, e.callAt src false write) ::
    match r.2 with
    | .ok _ => [(r.1, e.callAt dst false true)]
    | _ => []

def resolutions : DirOp e.tree → List e.Resolution
  | .create file flags _ =>
    if hasFlag (flags ||| oCreat) oRdwr ∧ hasFlag (flags ||| oCreat) oWronly then []
    else [(e.cache, (e.openAt file).pathCall file.path (flags ||| oCreat))]
  | .mkdir file _ => [(e.cache, e.callAt file true true)]
  | .mknod file mode _ =>
    if (e.mknodRefusal mode).isSome then [] else [(e.cache, e.callAt file false true)]
  | .symlink _ link => [(e.cache, e.callAt link false true)]
  | .link src dst => e.twoResolutions src dst false
  | .unlink file => [(e.cache, e.callAt file false true)]
  | .rmdir file => [(e.cache, e.callAt file true true)]
  | .rename src dst => e.twoResolutions src dst true

def Performed : DirOp e.tree → Prop
  | .create file flags mode =>
    ¬ (hasFlag (flags ||| oCreat) oRdwr ∧ hasFlag (flags ||| oCreat) oWronly) ∧
      ∃ path fd after, (e.openAt file).resolve file.path (flags ||| oCreat) = .ok path ∧
        fakefsOpen e.sys e.fileCred fs path (flags ||| oCreat) mode = (.ok fd, after) ∧
        e.openedFile after (flags ||| oCreat) fd = .ok fd
  | .mkdir file mode => ∃ path, (e.resolveAt e.cache file true true).2 = .ok path ∧
      (fakefsMkdir e.sys e.fileCred fs path mode).1 = none
  | .mknod file mode dev => e.mknodRefusal mode = none ∧
      ∃ path, (e.resolveAt e.cache file false true).2 = .ok path ∧
        (fakefsMknod e.sys e.fileCred fs path mode dev).1 = none
  | .symlink target link => ∃ path, (e.resolveAt e.cache link false true).2 = .ok path ∧
      (fakefsSymlink e.sys e.fileCred fs target path).1 = none
  | .link src dst => ∃ srcPath dstPath, (e.resolveAt e.cache src false false).2 = .ok srcPath ∧
      (e.resolveAt (e.resolveAt e.cache src false false).1 dst false true).2 = .ok dstPath ∧
      (fakefsLink e.sys fs srcPath dstPath).1 = none
  | .unlink file => ∃ path, (e.resolveAt e.cache file false true).2 = .ok path ∧
      (fakefsUnlink e.sys fs path).1 = none
  | .rmdir file => ∃ path, (e.resolveAt e.cache file true true).2 = .ok path ∧
      path ≠ [] ∧ (fakefsRmdir e.sys fs path).1 = none
  | .rename src dst => ∃ srcPath dstPath, (e.resolveAt e.cache src false true).2 = .ok srcPath ∧
      (e.resolveAt (e.resolveAt e.cache src false true).1 dst false true).2 = .ok dstPath ∧
      srcPath ≠ [] ∧ (fakefsRename e.sys fs srcPath dstPath).1 = none

def parentOf : PathResult → List CString
  | .ok path => [popName path]
  | _ => []

def changed : DirOp e.tree → List CString
  | .create file flags _ =>
    match (e.openAt file).resolve file.path (flags ||| oCreat) with
    | .ok path => if (e.sys.lstat fs.host (fs.target path)).isNone then [popName path] else []
    | _ => []
  | .mkdir file _ => parentOf (e.resolveAt e.cache file true true).2
  | .mknod file _ _ => parentOf (e.resolveAt e.cache file false true).2
  | .symlink _ link => parentOf (e.resolveAt e.cache link false true).2
  | .link src dst => parentOf (e.resolveAt (e.resolveAt e.cache src false false).1 dst false true).2
  | .unlink file => parentOf (e.resolveAt e.cache file false true).2
  | .rmdir file => parentOf (e.resolveAt e.cache file true true).2
  | .rename src dst =>
    let r := e.resolveAt e.cache src false true
    let r' := e.resolveAt r.1 dst false true
    if r.2 = r'.2 then [] else parentOf r.2 ++ parentOf r'.2

variable {e fs}

/-! ### What the operations come to -/

lemma andThen_none_iff {r : PathResult} {f : CString → Option OpErr × Fakefs H} :
    (r.andThen fs f).1 = none ↔ ∃ path, r = .ok path ∧ (f path).1 = none := by
  cases r <;> simp [PathResult.andThen]

lemma andThen_eacces_iff {r : PathResult} {f : CString → Option OpErr × Fakefs H} :
    r.andThen fs f = (some (.path .eacces), fs) ↔
      r = .err .eacces ∨ ∃ path, r = .ok path ∧ f path = (some (.path .eacces), fs) := by
  cases r <;> simp [PathResult.andThen]

lemma ofFs_none_iff {r : Option FsErr × Fakefs H} : (ofFs r).1 = none ↔ r.1 = none := by
  simp [ofFs]

lemma ofFs_ne (r : Option FsErr × Fakefs H) (er : PathErr) (fs' : Fakefs H) :
    ofFs r ≠ (some (.path er), fs') := by
  obtain ⟨r, after⟩ := r
  cases r <;> simp [ofFs]

lemma unlessMount_none_iff {path : CString} {r : Option FsErr × Fakefs H} :
    (if containsMountPoint path then (some .ebusy, fs) else ofFs r : Option OpErr × Fakefs H).1 =
      none ↔ path ≠ [] ∧ r.1 = none := by
  by_cases hpath : path = []
  · simp [containsMountPoint, hpath]
  · simp [containsMountPoint, hpath, ofFs_none_iff]

lemma unlessMount_ne (path : CString) (r : Option FsErr × Fakefs H) (er : PathErr)
    (fs' : Fakefs H) :
    (if containsMountPoint path then (some .ebusy, fs) else ofFs r : Option OpErr × Fakefs H) ≠
      (some (.path er), fs') := by
  split_ifs
  · simp
  · exact ofFs_ne r er fs'

lemma createAt_none_iff {file : AtPath e.tree} {flags mode : ℕ} :
    (e.createAt fs file flags mode).1 = none ↔ e.Performed fs (.create file flags mode) := by
  have hok : (e.createAt fs file flags mode).1 = none ↔ ∃ fd,
      ((e.openAt file).genericOpenat fs file.path (flags ||| oCreat) mode).1 = .ok fd := by
    unfold createAt
    simp only
    cases ((e.openAt file).genericOpenat fs file.path (flags ||| oCreat) mode).1 <;> simp
  rw [hok, Performed, genericOpenat]
  by_cases hflags : hasFlag (flags ||| oCreat) oRdwr = true ∧ hasFlag (flags ||| oCreat) oWronly = true
  · simp [hflags]
  · simp only [hflags, if_false, not_false_eq_true, true_and]
    cases hpath : (e.openAt file).resolve file.path (flags ||| oCreat) with
    | err er => simp
    | overflow => simp
    | outOfFuel => simp
    | ok path =>
      have hcred : (e.openAt file).fileCred = e.fileCred := rfl
      have hsys : (e.openAt file).sys = e.sys := rfl
      have hfile : (e.openAt file).openedFile = e.openedFile := rfl
      simp only [hcred, hsys, hfile, PathResult.ok.injEq, exists_and_left, exists_eq_left']
      generalize fakefsOpen e.sys e.fileCred fs path (flags ||| oCreat) mode = opened
      obtain ⟨result, after⟩ := opened
      cases result with
      | error er => simp
      | ok fd =>
        simp only [Prod.mk.injEq, Except.ok.injEq]
        constructor
        · rintro ⟨fd', hfd⟩
          obtain rfl := openedFile_ok hfd
          exact ⟨_, after, ⟨rfl, rfl⟩, hfd⟩
        · rintro ⟨fd', after', ⟨rfl, rfl⟩, hfd⟩
          exact ⟨_, hfd⟩

lemma runOp_none_iff {op : DirOp e.tree} : (e.runOp fs op).1 = none ↔ e.Performed fs op := by
  cases op with
  | create file flags mode => exact createAt_none_iff
  | mkdir file mode => simp only [runOp, genericMkdirat, andThen_none_iff, ofFs_none_iff, Performed]
  | mknod file mode dev =>
    simp only [runOp, genericMknodat, Performed]
    cases e.mknodRefusal mode with
    | some err => simp
    | none => simp only [andThen_none_iff, ofFs_none_iff, true_and]
  | symlink target link =>
    simp only [runOp, genericSymlinkat, andThen_none_iff, ofFs_none_iff, Performed]
  | link src dst =>
    simp only [runOp, genericLinkat, andThen_none_iff, ofFs_none_iff, Performed, exists_and_left]
  | unlink file => simp only [runOp, genericUnlinkat, andThen_none_iff, ofFs_none_iff, Performed]
  | rmdir file => simp only [runOp, genericRmdirat, andThen_none_iff, unlessMount_none_iff, Performed]
  | rename src dst =>
    simp only [runOp, genericRenameat, andThen_none_iff, unlessMount_none_iff, Performed,
      exists_and_left]

lemma Resolution.eacces_iff (x : e.Resolution) (hcred : x.2.cred = e.cred.toPathCred) :
    (x.1.pathNormalize x.2).2 = .err .eacces ↔ ∃ d ∈ x.checks, e.SearchRefused d := by
  obtain ⟨cache, call⟩ := x
  have hrefused (d : CString) : call.env.Refuses d ↔ e.SearchRefused d := by
    unfold PathEnv.Refuses SearchRefused
    rw [← hcred]
    rfl
  have hchecks : call.path = [] → call.env.checks (some call.start.path) call.path = [] := by
    intro hnil
    rw [PathEnv.checks, PathEnv.listFrom_eq, if_pos hnil]
  unfold Resolution.checks PathCache.pathNormalize
  simp only
  cases hhit : (cache.get call).2 with
  | some out =>
    simp only [Option.isSome_some, if_true]
    split_ifs <;> simp
  | none =>
    simp only [Option.isSome_none, Bool.false_eq_true, if_false]
    by_cases hnil : call.path = []
    · rw [if_pos hnil, hchecks hnil]
      simp
    · rw [if_neg hnil]
      simp only [← hrefused]
      rw [← PathEnv.pathNormalize_eq_eacces_iff]
      unfold PathCall.resolve
      cases call.env.pathNormalize (some call.start.path) call.path <;> simp

lemma openRefusal_ne_path (cred : PathCred) (devOpen : IshStat → Option ℤ) (st : IshStat)
    (flags : ℕ) (er : PathErr) : openRefusal cred devOpen st flags ≠ some (.path er) := by
  unfold openRefusal
  generalize (if st.type = sIfblk ∨ st.type = sIfchr then devOpen st else none) = device
  cases device
  all_goals split_ifs
  all_goals simp

lemma openedFile_ne_path {flags : ℕ} {fd : FakeFd} (er : PathErr) :
    e.openedFile fs flags fd ≠ .error (.path er) := by
  intro h
  unfold openedFile at h
  split at h
  · cases h
  · split_ifs at h
    · split at h
      case h_1 err hrefuse =>
        obtain rfl := Except.error.inj h
        exact openRefusal_ne_path _ _ _ _ _ hrefuse
      case h_2 => cases h
    · cases h

lemma genericOpenat_ne_path {raw path : CString} {flags : ℕ} (fs : Fakefs H) (mode : ℕ)
    (hpath : e.resolve raw flags = .ok path) (er : PathErr) :
    (e.genericOpenat fs raw flags mode).1 ≠ .error (.path er) := by
  unfold genericOpenat
  split_ifs
  · simp
  · simp only [hpath]
    obtain ⟨result, after⟩ := fakefsOpen e.sys e.fileCred fs path flags mode
    cases result with
    | error err => simp
    | ok fd => exact openedFile_ne_path er

lemma createAt_eacces_iff {file : AtPath e.tree} {flags mode : ℕ} :
    e.createAt fs file flags mode = (some (.path .eacces), fs) ↔
      ∃ x ∈ e.resolutions (.create file flags mode),
        (x.1.pathNormalize x.2).2 = .err .eacces := by
  have hof {err : OpenErr} (h : OpErr.ofOpen err = .path .eacces) : err = .path .eacces := by
    cases err <;> simp_all [OpErr.ofOpen]
  by_cases hflags : hasFlag (flags ||| oCreat) oRdwr = true ∧ hasFlag (flags ||| oCreat) oWronly = true
  · simp [resolutions, createAt, genericOpenat, hflags, OpErr.ofOpen]
  · have hresolve : (e.openAt file).resolve file.path (flags ||| oCreat) =
        (e.cache.pathNormalize ((e.openAt file).pathCall file.path (flags ||| oCreat))).2 := rfl
    simp only [resolutions, hflags, if_false, List.mem_singleton, exists_eq_left, ← hresolve]
    cases hpath : (e.openAt file).resolve file.path (flags ||| oCreat) with
    | err er => simp [createAt, genericOpenat, hflags, hpath, OpErr.ofOpen]
    | overflow => simp [createAt, genericOpenat, hflags, hpath, OpErr.ofOpen]
    | outOfFuel => simp [createAt, genericOpenat, hflags, hpath, OpErr.ofOpen]
    | ok path =>
      refine iff_of_false (fun h => ?_) (by simp)
      have hne := genericOpenat_ne_path fs mode hpath .eacces
      have herr := congrArg Prod.fst h
      simp only [createAt] at herr
      cases hopen : ((e.openAt file).genericOpenat fs file.path (flags ||| oCreat) mode).1 with
      | ok fd => simp [hopen] at herr
      | error err =>
        rw [hopen] at herr
        rw [hof (Option.some.inj herr)] at hopen
        exact hne hopen

lemma twoResolutions_iff {src dst : AtPath e.tree} {write : Bool} :
    (∃ x ∈ e.twoResolutions src dst write, (x.1.pathNormalize x.2).2 = .err .eacces) ↔
      (e.resolveAt e.cache src false write).2 = .err .eacces ∨
        ∃ path, (e.resolveAt e.cache src false write).2 = .ok path ∧
          (e.resolveAt (e.resolveAt e.cache src false write).1 dst false true).2 = .err .eacces := by
  have hsrc : (e.cache.pathNormalize (e.callAt src false write)).2 =
      (e.resolveAt e.cache src false write).2 := rfl
  unfold twoResolutions
  simp only [List.mem_cons, exists_eq_or_imp, hsrc]
  cases (e.resolveAt e.cache src false write).2 <;> simp [resolveAt]

lemma runOp_eacces_iff {op : DirOp e.tree} : e.runOp fs op = (some (.path .eacces), fs) ↔
    ∃ x ∈ e.resolutions op, (x.1.pathNormalize x.2).2 = .err .eacces := by
  have hone {r : PathResult} {f : CString → Option FsErr × Fakefs H} :
      (r.andThen fs fun path => ofFs (f path)) = (some (.path .eacces), fs) ↔ r = .err .eacces := by
    simp [andThen_eacces_iff, ofFs_ne]
  cases op with
  | create file flags mode => exact createAt_eacces_iff
  | mkdir file mode =>
    simp only [runOp, genericMkdirat, hone, resolutions, List.mem_singleton, exists_eq_left]
    rfl
  | mknod file mode dev =>
    simp only [runOp, genericMknodat, resolutions]
    cases hrefusal : e.mknodRefusal mode with
    | some err =>
      refine iff_of_false (fun h => ?_) (by simp)
      have herr : err = .path .eacces := Option.some.inj (congrArg Prod.fst h)
      rw [herr, mknodRefusal] at hrefusal
      split_ifs at hrefusal
      · cases hrefusal
      · cases hrefusal
    | none =>
      simp only [hone, Option.isSome_none, Bool.false_eq_true, if_false, List.mem_singleton,
        exists_eq_left]
      rfl
  | symlink target link =>
    simp only [runOp, genericSymlinkat, hone, resolutions, List.mem_singleton, exists_eq_left]
    rfl
  | unlink file =>
    simp only [runOp, genericUnlinkat, hone, resolutions, List.mem_singleton, exists_eq_left]
    rfl
  | rmdir file =>
    simp only [runOp, genericRmdirat, andThen_eacces_iff, unlessMount_ne, and_false, exists_false,
      or_false, resolutions, List.mem_singleton, exists_eq_left]
    rfl
  | link src dst =>
    simp only [runOp, genericLinkat, resolutions, twoResolutions_iff, andThen_eacces_iff, ofFs_ne,
      and_false, exists_false, or_false]
  | rename src dst =>
    simp only [runOp, genericRenameat, resolutions, twoResolutions_iff, andThen_eacces_iff,
      unlessMount_ne, and_false, exists_false, or_false]

lemma cred_of_mem_resolutions {op : DirOp e.tree} {x : e.Resolution} (hx : x ∈ e.resolutions op) :
    x.2.cred = e.cred.toPathCred ∧ x.2.root = e.root := by
  have htwo {src dst : AtPath e.tree} {write : Bool} (hx : x ∈ e.twoResolutions src dst write) :
      x.2.cred = e.cred.toPathCred ∧ x.2.root = e.root := by
    unfold twoResolutions at hx
    simp only [List.mem_cons] at hx
    obtain rfl | hx := hx
    · exact ⟨rfl, rfl⟩
    · split at hx
      · obtain rfl := List.mem_singleton.1 hx
        exact ⟨rfl, rfl⟩
      · cases hx
  have hone {y : e.Resolution} (hy : y.2.cred = e.cred.toPathCred ∧ y.2.root = e.root)
      (hx : x ∈ [y]) : x.2.cred = e.cred.toPathCred ∧ x.2.root = e.root := by
    obtain rfl := List.mem_singleton.1 hx
    exact hy
  cases op with
  | create file flags mode =>
    simp only [resolutions] at hx
    split_ifs at hx
    · cases hx
    · exact hone ⟨rfl, rfl⟩ hx
  | mknod file mode dev =>
    simp only [resolutions] at hx
    split_ifs at hx
    · cases hx
    · exact hone ⟨rfl, rfl⟩ hx
  | link src dst => exact htwo hx
  | rename src dst => exact htwo hx
  | mkdir file mode => exact hone ⟨rfl, rfl⟩ hx
  | symlink target link => exact hone ⟨rfl, rfl⟩ hx
  | unlink file => exact hone ⟨rfl, rfl⟩ hx
  | rmdir file => exact hone ⟨rfl, rfl⟩ hx

end OpenEnv

end ShellBox
