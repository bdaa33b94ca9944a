import ShellBox.Fs.HostTree
import ShellBox.Logic.Loop
import ShellBox.Fs.FakefsReadOnly

/-!
# The metadata and the host tree agree

Without bind mounts a guest path is a path of the host. The paths of the database are those of
the host tree, and two paths have one inode exactly when they are names of one file. Every
operation that succeeds on the host does the same to both, but one: renaming a name of a file to
another name of it does nothing on the host, and takes the row away.
-/

namespace ShellBox

open Function

/-! ### Without bind mounts -/

section Unbound

variable {H : Type*} {fs : Fakefs H} (hmounts : fs.mounts = fun _ => .unused)
  (path : CString)

lemma bindMountFind_unused (cmpPath : CString) (readonlyOnly : Bool) :
    bindMountFind (fun _ => .unused) cmpPath readonlyOnly = none := by
  cases h : bindMountFind (fun _ => .unused) cmpPath readonlyOnly with
  | none => rfl
  | some i =>
    obtain ⟨⟨hact, -⟩, -⟩ := bindMountFind_some h
    cases hact

include hmounts

lemma isUnderReadonlyBindMount_unused : isUnderReadonlyBindMount fs.mounts path = false := by
  unfold isUnderReadonlyBindMount
  rw [hmounts]
  split
  · rw [bindMountFind_unused]
    rfl
  · rfl

lemma isUnderBindMount_unused : isUnderBindMount fs.mounts path = false := by
  unfold isUnderBindMount
  rw [hmounts]
  split
  · rw [bindMountFind_unused]
    rfl
  · rfl

lemma route_unused (hhook : fs.hook = none) : fs.route path = none := by
  unfold Fakefs.route bindMountTranslatePathEx
  rw [hmounts, hhook]
  cases bindMountNormalize path maxPath with
  | none => rfl
  | some norm => simp [bindMountFind_unused]

end Unbound

/-! ### Agreement -/

/-- The database and the host tree hold the same paths and the same hard links. The other facts
about the database are those of its schema. -/
structure TreeSynced (fs : Fakefs HostTree) : Prop where
  mounts : fs.mounts = fun _ => .unused
  hook : fs.hook = none
  agree : Agree fs.db.paths.get fs.host.node.get
  foreignKey : fs.db.ForeignKey
  nonzero : ∀ p, fs.db.paths p ≠ some 0

namespace TreeSynced

variable {fs : Fakefs HostTree} (hs : TreeSynced fs)

include hs

lemma pathGetInode_eq_zero {p : CString} : fs.db.pathGetInode p = 0 ↔ fs.db.paths p = none := by
  unfold MetaDb.pathGetInode
  cases h : fs.db.paths p with
  | none => simp
  | some n =>
    have hne : n ≠ 0 := by
      rintro rfl
      exact hs.nonzero p h
    simpa using hne

lemma create {host : HostTree} {p : CString} {isDir : Bool} (stat : IshStat)
    (hhost : host = fs.host.withNode p isDir) :
    TreeSynced { fs with host, db := fs.db.pathCreate p stat } := by
  subst hhost
  have hkey : ∀ q, fs.db.paths q ≠ some fs.db.stats.nextKey := by
    intro q hq
    have hsome := hs.foreignKey q _ hq
    rw [FinMap.nextKey_free] at hsome
    cases hsome
  refine ⟨hs.mounts, hs.hook, ?_, ?_, ?_⟩
  · exact hs.agree.insert p hkey fs.host.node_ne_fresh
  · intro q n hq
    by_cases hn : n = fs.db.stats.nextKey
    · simp [MetaDb.pathCreate, hn]
    · have hqp : q ≠ p := by
        rintro rfl
        simp only [MetaDb.pathCreate, FinMap.set_get, update_self, Option.some.injEq] at hq
        exact hn hq.symm
      simp only [MetaDb.pathCreate, FinMap.set_get, update_of_ne hqp] at hq
      simpa [MetaDb.pathCreate, hn] using hs.foreignKey q n hq
  · intro q hq
    by_cases hqp : q = p
    · have hpos : fs.db.stats.nextKey ≠ 0 := by simp [FinMap.nextKey]
      subst hqp
      simp only [MetaDb.pathCreate, FinMap.set_get, update_self, Option.some.injEq] at hq
      exact hpos hq
    · simp only [MetaDb.pathCreate, FinMap.set_get, update_of_ne hqp] at hq
      exact hs.nonzero q hq

lemma rows {db : MetaDb} {host : HostTree} (hagree : Agree db.paths.get host.node.get)
    (hstats : ∀ n, (∃ q, db.paths q = some n) → (fs.db.stats n).isSome → (db.stats n).isSome)
    (hsource : ∀ p n, db.paths p = some n → ∃ q, fs.db.paths q = some n) :
    TreeSynced { fs with host, db } := by
  refine ⟨hs.mounts, hs.hook, hagree, ?_, ?_⟩
  · intro p n hp
    obtain ⟨q, hq⟩ := hsource p n hp
    exact hstats n ⟨p, hp⟩ (hs.foreignKey q n hq)
  · intro p hp
    obtain ⟨q, hq⟩ := hsource p 0 hp
    exact hs.nonzero q hq

lemma remove {host : HostTree} {p : CString} (hp : fs.host.node p ≠ none)
    (hhost : host.node = fs.host.node.erase p) :
    TreeSynced ({ fs with host, db := (fs.db.pathUnlink p).2 }.inodeCheckOrphaned
      (fs.db.pathUnlink p).1) := by
  have hrow : fs.db.pathGetInode p ≠ 0 := by
    rw [Ne, hs.pathGetInode_eq_zero, hs.agree.dom]
    exact hp
  have hdb : (fs.db.pathUnlink p).2 = { fs.db with paths := fs.db.paths.erase p } := by
    simp [MetaDb.pathUnlink, hrow]
  have hagree : Agree (fs.db.paths.erase p).get host.node.get := by
    rw [hhost]
    exact hs.agree.remove p
  have hsource : ∀ q n, (fs.db.paths.erase p) q = some n → ∃ r, fs.db.paths r = some n := by
    intro q n hq
    by_cases hqp : q = p
    · simp [hqp] at hq
    · exact ⟨q, by simpa [hqp] using hq⟩
  rw [hdb]
  unfold Fakefs.inodeCheckOrphaned
  split_ifs
  · exact hs.rows hagree (fun _ _ h => h) hsource
  · simp only [MetaDb.tryCleanupInode]
    split_ifs with hval
    · exact hs.rows hagree (fun _ _ h => h) hsource
    · refine hs.rows hagree ?_ hsource
      rintro n ⟨q, hq⟩ hn'
      have hn : n ≠ (fs.db.pathUnlink p).1 := by
        rintro rfl
        exact hval ⟨q, hq⟩
      simpa [hn] using hn'

lemma sameHost {host : HostTree} (hhost : host.node = fs.host.node) :
    TreeSynced { fs with host } := by
  refine hs.rows ?_ (fun _ _ h => h) fun p n hp => ⟨p, hp⟩
  rw [hhost]
  exact hs.agree

lemma link {host : HostTree} {db : MetaDb} {src dst : CString} {n : ℕ}
    (hn : fs.host.node src = some n) (hhost : host.node = fs.host.node.set dst n)
    (hdb : fs.db.pathLink src dst = some db) : TreeSynced { fs with host, db } := by
  have hsrc : fs.db.paths src ≠ none := by
    rw [Ne, hs.agree.dom, hn]
    simp
  obtain ⟨m, hm⟩ := Option.ne_none_iff_exists'.1 hsrc
  obtain rfl : { fs.db with paths := fs.db.paths.set dst m } = db := by
    simp only [MetaDb.pathLink] at hdb
    split_ifs at hdb
    simpa [MetaDb.pathGetInode, hm] using hdb
  refine hs.rows ?_ (fun _ _ h => h) ?_
  · rw [hhost, FinMap.set_get, FinMap.set_get, ← hm, ← hn]
    exact hs.agree.copy src dst
  · intro p k hk
    by_cases hp : p = dst
    · refine ⟨src, ?_⟩
      subst hp
      simpa [hm] using hk
    · exact ⟨p, by simpa [hp] using hk⟩

lemma pathLink_isSome {src dst : CString} {n : ℕ} (hn : fs.host.node src = some n) :
    ∃ db, fs.db.pathLink src dst = some db := by
  have hrow : fs.db.pathGetInode src ≠ 0 := by
    rw [Ne, hs.pathGetInode_eq_zero, hs.agree.dom, hn]
    simp
  refine ⟨{ fs.db with paths := fs.db.paths.set dst (fs.db.pathGetInode src) }, ?_⟩
  simp [MetaDb.pathLink, hrow]

lemma rename {host : HostTree} {src dst : CString}
    (hhost : host.node = fs.host.node.moveTree '/' src dst) :
    TreeSynced { fs with host, db := fs.db.pathRename src dst } := by
  refine hs.rows ?_ (fun _ _ h => h) ?_
  · rw [hhost]
    exact hs.agree.moveTree '/' src dst
  · intro p n hp
    rcases moveTree_source '/' src dst fs.db.paths.get p with hnone | ⟨q, hq⟩
    · rw [MetaDb.pathRename, FinMap.moveTree_get, hnone] at hp
      cases hp
    · rw [MetaDb.pathRename, FinMap.moveTree_get, hq] at hp
      exact ⟨q, hp⟩

lemma writeStat {inode : ℕ} {stat : IshStat} :
    TreeSynced { fs with db := fs.db.inodeWriteStat inode stat } := by
  unfold MetaDb.inodeWriteStat
  split_ifs with hsome
  · refine hs.rows hs.agree ?_ fun p n hp => ⟨p, hp⟩
    intro n _ hn
    by_cases heq : n = inode
    · simp [heq]
    · simpa [heq] using hn
  · exact hs

end TreeSynced

/-! ### The operations -/

/-- An operation with what the host makes of it. The inode data in memory can be any. -/
structure TreeOp where
  op : MutOp
  cred : Cred
  faults : HostFaults
  inUse : ℕ → Bool

def treeStep (fs : Fakefs HostTree) (o : TreeOp) : Fakefs HostTree :=
  mutStep (posixCalls o.faults) o.cred { fs with inUse := o.inUse } o.op

/-- The operations that leave no trace on one side only: no name of a file is renamed to another
name of it, and what the host has made is not left over. -/
def TreeOp.Tracked (fs : Fakefs HostTree) (o : TreeOp) : Prop :=
  match o.op with
  | .rename src dst => src ≠ dst → fs.host.SameFile src dst → o.faults.fail .rename ≠ none
  | .symlink _ _ => o.faults.fail .write ≠ none → o.faults.fail .unlink = none
  | .mknod _ _ _ => o.faults.fail .close = none
  | _ => True

lemma realfsMknod_posix {faults : HostFaults} (h : HostTree) (path : CString) (mode : ℕ)
    (hok : faults.fail .close = none) :
    h.node path = none ∧
        realfsMknod (posixCalls faults) h path mode = (.ok (), h.withNode path false) ∨
      ∃ e, (e = eexist → h.node path ≠ none) ∧
        realfsMknod (posixCalls faults) h path mode = (.error e, h) := by
  have hclose : ∀ h', (posixCalls faults).close h' = .ok () := fun h' => by
    simp [posixCalls, HostFaults.at, hok]
  unfold realfsMknod
  split_ifs with hfifo hreg
  · cases hr : (posixCalls faults).mkfifo h (.root path) with
    | error e =>
      refine Or.inr ⟨e, ?_, rfl⟩
      rintro rfl
      exact HostFaults.make_eexist hr
    | ok host =>
      obtain ⟨-, p, hp, hmake⟩ := HostFaults.at_ok hr
      obtain rfl := HostPath.root.inj hp
      obtain ⟨hnone, rfl⟩ := HostTree.make_ok hmake
      exact Or.inl ⟨hnone, rfl⟩
  · cases hr : (posixCalls faults).create h (.root path) with
    | error e =>
      refine Or.inr ⟨e, ?_, rfl⟩
      rintro rfl
      exact HostFaults.make_eexist hr
    | ok host =>
      obtain ⟨-, p, hp, hmake⟩ := HostFaults.at_ok hr
      obtain rfl := HostPath.root.inj hp
      obtain ⟨hnone, rfl⟩ := HostTree.make_ok hmake
      exact Or.inl ⟨hnone, by simp [hclose]⟩
  · exact Or.inr ⟨hostEperm, fun h => absurd h (by decide), rfl⟩

section Steps

variable {fs : Fakefs HostTree} {cred : Cred} {faults : HostFaults} (hs : TreeSynced fs)

include hs

lemma treeSynced_onHost {c : HostCall} {path : HostPath} :
    TreeSynced (fs.onHost (faults.at c path fun _ => .ok fs.host)).2 := by
  cases hr : faults.at c path fun _ => .ok fs.host with
  | error e => exact hs
  | ok host =>
    obtain ⟨-, p, -, hp⟩ := HostFaults.at_ok hr
    obtain rfl := Except.ok.inj hp
    exact hs

lemma treeSynced_mkdir (path : CString) (mode : ℕ) :
    TreeSynced (fakefsMkdir (posixCalls faults) cred fs path mode).2 := by
  unfold fakefsMkdir
  rw [if_neg (by simp [isUnderReadonlyBindMount_unused hs.mounts]),
    route_unused hs.mounts path hs.hook]
  simp only [viaHook, hostPathOf, Bool.false_eq_true, if_false]
  cases hr : (posixCalls faults).mkdir fs.host (.root path) with
  | error e => exact hs
  | ok host =>
    obtain ⟨-, p, hp, hmake⟩ := HostFaults.at_ok hr
    obtain rfl := HostPath.root.inj hp
    exact hs.create _ (HostTree.make_ok hmake).2

lemma treeSynced_remove {call : HostTree → HostPath → Except ℤ HostTree} {path : CString}
    (hcall : ∀ host, call fs.host (.root path) = .ok host →
      fs.host.node path ≠ none ∧ host.node = fs.host.node.erase path) :
    TreeSynced (fakefsRemove (posixCalls faults) fs call path).2 := by
  unfold fakefsRemove
  rw [if_neg (by simp [isUnderReadonlyBindMount_unused hs.mounts]),
    route_unused hs.mounts path hs.hook, isUnderBindMount_unused hs.mounts]
  simp only [viaHook, hostPathOf, Bool.false_eq_true, if_false]
  cases hr : call fs.host (.root path) with
  | error e => exact hs
  | ok host =>
    obtain ⟨hp, hhost⟩ := hcall host hr
    exact hs.remove hp hhost

lemma treeSynced_link (src dst : CString) :
    TreeSynced (fakefsLink (posixCalls faults) fs src dst).2 := by
  unfold fakefsLink
  rw [if_neg (by simp [isUnderReadonlyBindMount_unused hs.mounts]),
    route_unused hs.mounts src hs.hook, route_unused hs.mounts dst hs.hook]
  simp only [viaHook, ne_eq, not_true_eq_false, Bool.false_eq_true, if_false]
  cases hr : (posixCalls faults).link fs.host (.root src) (.root dst) with
  | error e => exact hs
  | ok host =>
    obtain ⟨-, p, hp, hr⟩ := HostFaults.at_ok hr
    obtain rfl := HostPath.root.inj hp
    obtain ⟨-, q, hq, hr⟩ := HostFaults.at_ok hr
    obtain rfl := HostPath.root.inj hq
    obtain ⟨n, hn, hhost⟩ := HostTree.linkAt_ok hr
    obtain ⟨db, hdb⟩ : ∃ db, fs.db.pathLink src dst = some db := hs.pathLink_isSome hn
    simp only [hdb]
    exact hs.link hn hhost hdb

lemma treeSynced_rename {src dst : CString}
    (hok : src ≠ dst → fs.host.SameFile src dst → faults.fail .rename ≠ none) :
    TreeSynced (fakefsRename (posixCalls faults) fs src dst).2 := by
  unfold fakefsRename
  rw [if_neg (by simp [isUnderReadonlyBindMount_unused hs.mounts]),
    route_unused hs.mounts src hs.hook, route_unused hs.mounts dst hs.hook]
  simp only [viaHook, hostPathOf, ne_eq, not_true_eq_false, or_self, Bool.false_eq_true, if_false]
  cases hr : (posixCalls faults).rename fs.host (.root src) (.root dst) with
  | error e => exact hs
  | ok host =>
    obtain ⟨hfail, p, hp, hr⟩ := HostFaults.at_ok hr
    obtain rfl := HostPath.root.inj hp
    obtain ⟨-, q, hq, hr⟩ := HostFaults.at_ok hr
    obtain rfl := HostPath.root.inj hq
    rcases HostTree.renameAt_ok hr with ⟨hsame, rfl⟩ | ⟨-, hhost⟩
    · -- the host does nothing, and nor does the database if the names are equal
      obtain rfl : src = dst := by
        by_contra hne
        exact hok hne hsame hfail
      have hmove : fs.db.pathRename src src = fs.db := by
        ext1
        · exact FinMap.ext fun p => congrFun (moveTree_self '/' src fs.db.paths.get) p
        · rfl
      simp only [hmove]
      exact hs
    · exact hs.rename hhost

lemma treeSynced_symlink {target name : CString}
    (hok : faults.fail .write ≠ none → faults.fail .unlink = none) :
    TreeSynced (fakefsSymlink (posixCalls faults) cred fs target name).2 := by
  unfold fakefsSymlink
  rw [if_neg (by simp [isUnderReadonlyBindMount_unused hs.mounts]),
    route_unused hs.mounts name hs.hook]
  simp only [viaHook, Bool.false_eq_true, if_false]
  cases hr : (posixCalls faults).create fs.host (.root name) with
  | error e => exact hs
  | ok host =>
    obtain ⟨-, p, hp, hmake⟩ := HostFaults.at_ok hr
    obtain rfl := HostPath.root.inj hp
    obtain ⟨hnone, hhost⟩ := HostTree.make_ok hmake
    cases hw : (posixCalls faults).write host (.root name) target with
    | ok host' =>
      obtain ⟨-, q, -, hq⟩ := HostFaults.at_ok hw
      obtain rfl := Except.ok.inj hq
      simp only [hw]
      exact hs.create _ hhost
    | error e =>
      -- the file is taken away again
      have hfail : faults.fail .unlink = none := by
        refine hok fun hwrite => ?_
        simp [posixCalls, HostFaults.at, hwrite] at hw
      have hunlink : (posixCalls faults).unlink host (.root name) =
          .ok { host with node := host.node.erase name } := by
        subst hhost
        simp [posixCalls, HostFaults.at, hfail, HostTree.unlinkAt, HostTree.dirAt,
          HostTree.withNode]
      simp only [hw, hunlink]
      refine hs.sameHost ?_
      subst hhost
      refine FinMap.ext fun q => ?_
      by_cases hq : q = name
      · simp [hq, hnone]
      · simp [HostTree.withNode, hq]

lemma treeSynced_mknod {path : CString} {mode dev : ℕ} (hok : faults.fail .close = none) :
    TreeSynced (fakefsMknod (posixCalls faults) cred fs path mode dev).2 := by
  unfold fakefsMknod
  rw [if_neg (by simp [isUnderReadonlyBindMount_unused hs.mounts])]
  simp only []
  generalize (if mode &&& sIfmt = sIfblk ∨ mode &&& sIfmt = sIfchr ∨ mode &&& sIfmt = sIfsock then
    0o666 ||| sIfreg else 0o666 ||| mode &&& sIfmt) = realMode
  obtain ⟨hnone, hmade⟩ | ⟨e, hexist, hmade⟩ := realfsMknod_posix fs.host path realMode hok
  · have hrow : fs.db.pathGetInode path = 0 := by
      rw [hs.pathGetInode_eq_zero, hs.agree.dom]
      exact hnone
    simp only [hmade, hrow, if_true]
    exact hs.create _ rfl
  · simp only [hmade]
    by_cases he : e = eexist
    · have hrow : fs.db.pathGetInode path ≠ 0 := by
        rw [Ne, hs.pathGetInode_eq_zero, hs.agree.dom]
        exact hexist he
      simp only [he, if_true, hrow, if_false]
      exact hs
    · simp only [he, if_false]
      exact hs

lemma treeSynced_setattrUntracked {path : HostPath} (attr : Attr) :
    TreeSynced (setattrUntracked fs
      (fun _ => faults.at .attr path fun _ => .ok fs.host) attr).2 := by
  cases attr with
  | uid n => exact hs
  | gid n => exact hs
  | mode n => exact treeSynced_onHost hs
  | size n => exact treeSynced_onHost hs

lemma treeSynced_setattr (path : CString) (attr : Attr) (followLinks : Bool) :
    TreeSynced (fakefsSetattr (posixCalls faults) fs path attr followLinks).2 := by
  unfold fakefsSetattr
  rw [if_neg (by simp [isUnderReadonlyBindMount_unused hs.mounts]),
    route_unused hs.mounts path hs.hook, isUnderBindMount_unused hs.mounts]
  simp only [viaHook, Bool.false_eq_true, if_false]
  split
  · exact treeSynced_onHost hs
  · split
    · exact hs.writeStat
    · exact hs

lemma treeSynced_fsetattr (fd : FakeFd) (attr : Attr) :
    TreeSynced (fakefsFsetattr (posixCalls faults) fs fd attr).2 := by
  unfold fakefsFsetattr
  split_ifs
  · exact hs
  · split
    · exact treeSynced_onHost hs
    · split
      · exact treeSynced_setattrUntracked hs _
      · exact hs.writeStat

lemma treeSynced_open (path : CString) (flags mode : ℕ) :
    TreeSynced (fakefsOpen (posixCalls faults) cred fs path flags mode).2 := by
  unfold fakefsOpen
  rw [if_neg (by simp [isUnderReadonlyBindMount_unused hs.mounts]),
    route_unused hs.mounts path hs.hook]
  simp only [hostPathOf]
  cases hr : (posixCalls faults).openFile fs.host (.root path) flags with
  | error e => exact hs
  | ok r =>
    obtain ⟨no, host⟩ := r
    obtain ⟨-, p, hp, hopen⟩ := HostFaults.at_ok hr
    obtain rfl := HostPath.root.inj hp
    have hroute : ({ fs with host } : Fakefs HostTree).route path = none :=
      @route_unused _ { fs with host } hs.mounts path hs.hook
    unfold fakefsOpened
    simp only [hroute, viaHook, Bool.false_eq_true, if_false]
    cases hn : fs.host.node path with
    | some n =>
      -- the file has a row
      have hrow : fs.db.pathGetInode path ≠ 0 := by
        rw [Ne, hs.pathGetInode_eq_zero, hs.agree.dom, hn]
        simp
      simp only [HostTree.openAt, hn, Except.ok.injEq, Prod.mk.injEq] at hopen
      obtain ⟨-, rfl⟩ := hopen
      simp only [hrow, ne_eq, not_false_eq_true, if_true]
      exact hs
    | none =>
      have hrow : fs.db.pathGetInode path = 0 := by
        rw [hs.pathGetInode_eq_zero, hs.agree.dom]
        exact hn
      simp only [HostTree.openAt, hn] at hopen
      split_ifs at hopen with hcreat
      cases hmake : fs.host.make false path with
      | error e => simp [hmake, Except.map] at hopen
      | ok host' =>
        simp only [hmake, Except.map, Except.ok.injEq, Prod.mk.injEq] at hopen
        obtain ⟨-, rfl⟩ := hopen
        simp only [hrow, hcreat, ne_eq, not_true_eq_false, not_false_eq_true, if_true, if_false]
        exact hs.create _ (HostTree.make_ok hmake).2

end Steps

/-- Every operation that is tracked keeps the agreement. -/
theorem treeSynced_treeStep {fs : Fakefs HostTree} {o : TreeOp} (ho : o.Tracked fs)
    (hs : TreeSynced fs) : TreeSynced (treeStep fs o) := by
  obtain ⟨op, cred, faults, inUse⟩ := o
  have hs : TreeSynced { fs with inUse } :=
    ⟨hs.mounts, hs.hook, hs.agree, hs.foreignKey, hs.nonzero⟩
  unfold treeStep mutStep
  cases op with
  | openFile path flags mode hflags =>
    have hopen : TreeSynced
        (fakefsOpen (posixCalls faults) cred { fs with inUse } path flags mode).2 :=
      treeSynced_open hs path flags mode
    rcases hr : fakefsOpen (posixCalls faults) cred { fs with inUse } path flags mode with ⟨r, fs'⟩
    rw [hr] at hopen
    cases r <;> simpa [mutCall, hr] using hopen
  | link src dst => exact treeSynced_link hs src dst
  | unlink path =>
    refine treeSynced_remove hs fun host hr => ?_
    obtain ⟨-, p, hp, hr⟩ := HostFaults.at_ok hr
    obtain rfl := HostPath.root.inj hp
    exact HostTree.unlinkAt_ok hr
  | rmdir path =>
    refine treeSynced_remove hs fun host hr => ?_
    obtain ⟨-, p, hp, hr⟩ := HostFaults.at_ok hr
    obtain rfl := HostPath.root.inj hp
    exact HostTree.rmdirAt_ok hr
  | rename src dst => exact treeSynced_rename hs ho
  | symlink target name => exact treeSynced_symlink hs ho
  | mknod path mode dev => exact treeSynced_mknod hs ho
  | mkdir path mode => exact treeSynced_mkdir hs path mode
  | utime path atime mtime followLinks =>
    simp only [mutCall, fakefsUtime]
    rw [if_neg (by simp [isUnderReadonlyBindMount_unused hs.mounts])]
    exact treeSynced_onHost hs
  | setattr path attr followLinks => exact treeSynced_setattr hs path attr followLinks
  | fsetattr fd attr => exact treeSynced_fsetattr hs fd attr

/-- After any run of tracked operations, the paths and the hard links agree. -/
theorem fakefs_agrees {fs : Fakefs HostTree} (hmounts : fs.mounts = fun _ => .unused)
    (hhook : fs.hook = none) (hagree : Agree fs.db.paths.get fs.host.node.get)
    (hfk : fs.db.ForeignKey) (hnonzero : ∀ p, fs.db.paths p ≠ some 0) {ops : List TreeOp}
    (hops : RunAll treeStep (fun fs o => o.Tracked fs) fs ops) :
    Agree (run treeStep fs ops).db.paths.get (run treeStep fs ops).host.node.get :=
  (run_invariant (fun _ _ ho hs => treeSynced_treeStep ho hs) hops
    ⟨hmounts, hhook, hagree, hfk, hnonzero⟩).agree

section Example

def twoNames : Fakefs HostTree where
  mounts _ := .unused
  hook := none
  db :=
    { paths := ((FinMap.empty.set [] 1).set ['/', 'a'] 2).set ['/', 'b'] 2
      stats := (FinMap.empty.set 1 ⟨0o40755, 0, 0, 0⟩).set 2 ⟨0o100644, 0, 0, 0⟩ }
  host :=
    { node := ((FinMap.empty.set [] 5).set ['/', 'a'] 6).set ['/', 'b'] 6
      isDir := fun n => n = 5 }
  inUse _ := false

lemma agree_twoNames : Agree twoNames.db.paths.get twoNames.host.node.get := by
  have hempty : Agree (FinMap.empty : FinMap CString ℕ).get (FinMap.empty : FinMap CString ℕ).get :=
    ⟨by simp, by simp⟩
  have hroot := hempty.insert [] (b := 1) (c := 5) (by simp) (by simp)
  have hfile := hroot.insert ['/', 'a'] (b := 2) (c := 6)
    (fun q => by by_cases hq : q = [] <;> simp [hq])
    (fun q => by by_cases hq : q = [] <;> simp [hq])
  exact hfile.copy ['/', 'a'] ['/', 'b']

lemma paths_twoNames {p : CString} {n : ℕ} (h : twoNames.db.paths p = some n) : n = 1 ∨ n = 2 := by
  simp only [twoNames, FinMap.set_get] at h
  by_cases hb : p = ['/', 'b']
  · exact Or.inr (by simpa [hb] using h.symm)
  · by_cases ha : p = ['/', 'a']
    · exact Or.inr (by simpa [hb, ha] using h.symm)
    · by_cases hroot : p = []
      · exact Or.inl (by simpa [hb, ha, hroot] using h.symm)
      · simp [hb, ha, hroot] at h

lemma foreignKey_twoNames : twoNames.db.ForeignKey := by
  intro p n h
  rcases paths_twoNames h with rfl | rfl
  · rfl
  · rfl

lemma nonzero_twoNames (p : CString) : twoNames.db.paths p ≠ some 0 := by
  intro h
  rcases paths_twoNames h with h | h <;> cases h

/-- A directory is made and renamed. -/
theorem fakefs_agrees_mkdir_rename :
    let ops : List TreeOp := [⟨.mkdir ['/', 'd'] 0o755, ⟨0, 0⟩, .nothing, fun _ => false⟩,
      ⟨.rename ['/', 'd'] ['/', 'e'], ⟨0, 0⟩, .nothing, fun _ => false⟩]
    Agree (run treeStep twoNames ops).db.paths.get (run treeStep twoNames ops).host.node.get := by
  intro ops
  have hops : RunAll treeStep (fun fs o => o.Tracked fs) twoNames ops := by
    refine ⟨trivial, ?_, trivial⟩
    rintro - ⟨-, hsame⟩
    cases hsame
  exact fakefs_agrees rfl rfl agree_twoNames foreignKey_twoNames nonzero_twoNames hops

/-- One name is renamed to the other. -/
theorem fakefs_rename_same_file : ¬ ∀ (fs : Fakefs HostTree) (ops : List TreeOp),
    (fs.mounts = fun _ => .unused) → fs.hook = none →
    Agree fs.db.paths.get fs.host.node.get → fs.db.ForeignKey → (∀ p, fs.db.paths p ≠ some 0) →
    Agree (run treeStep fs ops).db.paths.get (run treeStep fs ops).host.node.get := by
  intro h
  have hdom := (h twoNames [⟨.rename ['/', 'a'] ['/', 'b'], ⟨0, 0⟩, .nothing, fun _ => false⟩]
    rfl rfl agree_twoNames foreignKey_twoNames nonzero_twoNames).dom ['/', 'a']
  have hlost := hdom.1 rfl
  cases hlost

end Example

end ShellBox
